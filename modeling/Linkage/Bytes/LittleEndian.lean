import Linkage.Fault

/-!
Reading little-endian data at given offsets, as archives store it.
-/

namespace Linkage.LittleEndian

def sliceAt (data : ByteArray) (offset count : Nat) : Except Fault ByteArray :=
  if offset + count ≤ data.size then .ok (data.extract offset (offset + count))
  else .error (.truncated offset count)

def u16At (data : ByteArray) (offset : Nat) : Except Fault UInt16 :=
  if h : offset + 2 ≤ data.size then
    .ok (data[offset].toUInt16 ||| data[offset + 1].toUInt16 <<< 8)
  else .error (.truncated offset 2)

def u32At (data : ByteArray) (offset : Nat) : Except Fault UInt32 :=
  if h : offset + 4 ≤ data.size then
    .ok (data[offset].toUInt32 ||| data[offset + 1].toUInt32 <<< 8
      ||| data[offset + 2].toUInt32 <<< 16 ||| data[offset + 3].toUInt32 <<< 24)
  else .error (.truncated offset 4)

end Linkage.LittleEndian
