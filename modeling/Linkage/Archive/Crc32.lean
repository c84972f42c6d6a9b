/-!
The CRC-32 checksum of archives: the remainder of the data, read as a polynomial with its lowest bit
first, by the polynomial `0xEDB88320`, with all bits flipped before and after.
-/

namespace Linkage.Crc32

def shift (crc : UInt32) : UInt32 :=
  if crc &&& 1 = 1 then (crc >>> 1) ^^^ 0xEDB88320 else crc >>> 1

def shiftByte (crc : UInt32) : UInt32 :=
  shift (shift (shift (shift (shift (shift (shift (shift crc)))))))

def table : Array UInt32 := Array.ofFn fun byte : Fin 256 => shiftByte byte.val.toUInt32

theorem table_size : table.size = 256 := Array.size_ofFn

def update (crc : UInt32) (byte : UInt8) : UInt32 :=
  let place := (crc.toUInt8 ^^^ byte).toNat
  have : place < table.size := table_size ▸ UInt8.toNat_lt _
  table[place] ^^^ (crc >>> 8)

def ofBytes (data : ByteArray) : UInt32 := data.foldl update 0xFFFFFFFF ^^^ 0xFFFFFFFF

end Linkage.Crc32
