/-!
# Bytes

Byte strings and the unsigned integers they spell, most significant byte first.
-/

namespace FrameLink

abbrev Bytes := List UInt8

/-- Numbers of bytes, indices and sums of both stay below this bound. -/
def wordBound : Nat := 1 <<< 64

/-- No store is larger than this. -/
def storeBound : Nat := 1 <<< 63 - 1

namespace Bytes

/-- The number a byte string spells in base 256. -/
def value (bytes : Bytes) : Nat :=
  bytes.foldl (fun n b => 256 * n + b.toNat) 0

/-- How many numbers `width` bytes spell. -/
def span (width : Nat) : Nat :=
  1 <<< (8 * width)

/-- The last `width` base-256 digits of a number. -/
def digits (width n : Nat) : Bytes :=
  match width with
  | 0 => []
  | width + 1 => UInt8.ofNat (n / span width) :: digits width n

/-- A byte string read as a signed number in two's complement. -/
def signedValue (bytes : Bytes) : Int :=
  let n := value bytes
  if 2 * n < span bytes.length then n else (n : Int) - span bytes.length

/-- A store with bytes copied into it from a position on. It keeps its length: what would reach over
its end is left out. -/
def overlay (store : Bytes) (position : Nat) (bytes : Bytes) : Bytes :=
  store.take position ++ bytes.take (store.length - position) ++
    store.drop (position + bytes.length)

theorem length_overlay (store : Bytes) (position : Nat) (bytes : Bytes) :
    (overlay store position bytes).length = store.length := by
  simp only [overlay, List.length_append, List.length_take, List.length_drop]
  omega

theorem take_overlay {store : Bytes} {position : Nat} (hwithin : position ≤ store.length)
    (bytes : Bytes) : (overlay store position bytes).take position = store.take position := by
  have hfront : position ≤ (store.take position).length := by
    rw [List.length_take]
    omega
  rw [overlay, List.append_assoc, List.take_append_of_le_length hfront, List.take_take,
    Nat.min_self]

theorem slice_overlay {store : Bytes} {position : Nat} {bytes : Bytes}
    (hfits : position + bytes.length ≤ store.length) :
    ((overlay store position bytes).drop position).take bytes.length = bytes := by
  have hfront : (store.take position).length = position := by
    rw [List.length_take]
    omega
  have hcopied : bytes.take (store.length - position) = bytes := List.take_of_length_le (by omega)
  rw [overlay, hcopied, List.append_assoc, List.drop_left' hfront, List.take_left]

theorem drop_overlay {store : Bytes} {position : Nat} {bytes : Bytes}
    (hfits : position + bytes.length ≤ store.length) :
    (overlay store position bytes).drop (position + bytes.length) =
      store.drop (position + bytes.length) := by
  have hfront : (store.take position ++ bytes).length = position + bytes.length := by
    rw [List.length_append, List.length_take]
    omega
  have hcopied : bytes.take (store.length - position) = bytes := List.take_of_length_le (by omega)
  rw [overlay, hcopied, List.drop_left' hfront]

end Bytes

end FrameLink
