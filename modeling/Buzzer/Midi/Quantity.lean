/-!
The numbers and byte strings that a MIDI track is made of. Nothing here fails: what the bytes do not
hold any more is left out.
-/
namespace Buzzer

namespace Midi

/-- Reads up to `count` more bytes of a number, seven bits each. A byte without the high bit is the
last. -/
def quantityFrom : (count value : Nat) → List UInt8 → Nat × List UInt8
  | 0, value, bytes => (value, bytes)
  | _ + 1, value, [] => (value, [])
  | count + 1, value, byte :: rest =>
    let value := value * 0x80 + byte.toNat % 0x80
    if byte < 0x80 then (value, rest) else quantityFrom count value rest

/-- Reads a number of at most four bytes. -/
def quantity (bytes : List UInt8) : Nat × List UInt8 := quantityFrom 4 0 bytes

/-- Reads a byte string behind its length. -/
def lengthAndData (bytes : List UInt8) : List UInt8 × List UInt8 :=
  let (length, rest) := quantity bytes
  (rest.take length, rest.drop length)

theorem quantityFrom_length_le (count value : Nat) (bytes : List UInt8) :
    (quantityFrom count value bytes).2.length ≤ bytes.length := by
  fun_induction quantityFrom count value bytes with
  | case1 => exact Nat.le_refl _
  | case2 => exact Nat.le_refl _
  | case3 => exact Nat.le_succ _
  | case4 _ _ _ _ _ _ ih => exact Nat.le_succ_of_le ih

theorem quantity_length_le (bytes : List UInt8) : (quantity bytes).2.length ≤ bytes.length :=
  quantityFrom_length_le 4 0 bytes

theorem lengthAndData_length_le (bytes : List UInt8) :
    (lengthAndData bytes).2.length ≤ bytes.length := by
  have shorter := quantity_length_le bytes
  simp only [lengthAndData, List.length_drop]
  omega

/-- Bytes with the most significant first. -/
def bigEndian (bytes : List UInt8) : Nat := bytes.foldl (fun value byte => value * 0x100 + byte.toNat) 0

/-- Bytes with the least significant first. -/
def littleEndian (bytes : List UInt8) : Nat := bigEndian bytes.reverse

end Midi

end Buzzer
