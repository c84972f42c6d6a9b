/-!
Hexadecimal text, in lower case.
-/

namespace Linkage.Hex

/-- The `width` lowest hexadecimal digits of a number, leading zeros kept. -/
def digits (width value : Nat) : String :=
  String.ofList ((List.range width).map fun place =>
    Nat.digitChar ((value >>> (4 * (width - 1 - place))) % 16))

def ofBytes (bytes : List UInt8) : String :=
  String.ofList (bytes.flatMap fun byte =>
    [Nat.digitChar (byte.toNat / 16), Nat.digitChar (byte.toNat % 16)])

end Linkage.Hex
