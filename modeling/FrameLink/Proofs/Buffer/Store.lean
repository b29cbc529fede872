import FrameLink.Buffer
import Mathlib.Data.List.Basic

/-!
# The store of a buffer

No operation changes the reserve, and only `grow` changes the size of the store: where it has to be
replaced it gets just as large as is needed. So a store exists as long as every larger one that is
asked for could exist.
-/

namespace FrameLink.Buffer

structure Sound (b : Buffer) : Prop where
  size_le : b.size ≤ storeBound

/-- `n` more bytes find room, if need be in a new store that can exist. -/
def Affords (b : Buffer) (n : Nat) : Prop :=
  b.freeSize < n → b.size < b.reserve + b.unread.length + n →
    b.reserve + b.unread.length + n ≤ storeBound

instance (b : Buffer) (n : Nat) : Decidable (b.Affords n) :=
  inferInstanceAs (Decidable (_ → _ → _))

variable {b : Buffer}

theorem fillFree_of_le {bytes : Bytes} (hfits : bytes.length ≤ b.freeSize) :
    b.fillFree bytes = .ok (b.fill bytes) :=
  if_neg (Nat.not_lt.mpr hfits)

theorem advanceWriter_of_le {n : Nat} (hfits : n ≤ b.freeSize) :
    b.advanceWriter n = .ok (b.advance n) :=
  if_neg (Nat.not_lt.mpr hfits)

theorem read_of_le {n : Nat} (hn : n ≤ b.unread.length) :
    b.read n = .ok (b.unread.take n, b.consume n) :=
  if_neg (Nat.not_lt.mpr (b.length_unread ▸ hn))

theorem read_of_not_le {n : Nat} (hn : ¬n ≤ b.unread.length) : b.read n = .error .shortRead :=
  if_pos (b.length_unread ▸ Nat.not_le.mp hn)

theorem readCursor_lt_iff (b : Buffer) :
    decide (b.readCursor < b.writeCursor) = !b.unread.isEmpty := by
  have hend := b.readCursor_add_length_unread
  rw [Bool.eq_iff_iff, decide_eq_true_iff, Bool.not_eq_true', List.isEmpty_eq_false_iff,
    ← List.length_pos_iff]
  omega

theorem peek?_eq (b : Buffer) (n : Nat) :
    b.peek? n = if n ≤ b.unread.length then some (b.unread.take n) else none := by
  have hend := b.readCursor_add_length_unread
  have hlength := b.length_unread
  unfold peek?
  split_ifs with hlong hle hle
  · omega
  · rfl
  · rw [unread, List.take_take, Nat.min_eq_left (hlength ▸ hle)]
  · omega

theorem prepend?_of_le {bytes : Bytes} (hroom : bytes.length ≤ b.readCursor) :
    ∃ b' : Buffer, b.prepend? bytes = some b' ∧ b'.unread = bytes ++ b.unread := by
  have hreader := b.readCursor_le
  have hwriter := b.writeCursor_le
  have hstart : b.readCursor - bytes.length + bytes.length = b.readCursor :=
    Nat.sub_add_cancel hroom
  have hsize : b.writeCursor - (b.readCursor - bytes.length) = bytes.length + b.unreadSize := by
    rw [unreadSize]
    omega
  have hfits : b.readCursor - bytes.length + bytes.length ≤ b.store.length := by omega
  refine ⟨_, if_neg (Nat.not_lt.mpr hroom), ?_⟩
  rw [unread, unreadSize, hsize, List.take_add, List.drop_drop]
  rw [Bytes.slice_overlay hfits, Bytes.drop_overlay hfits, hstart]
  rfl

theorem unread_withReserve (reserve initial : Nat) : (withReserve reserve initial).unread = [] :=
  unread_reset (withReserve reserve initial)

theorem size_overwrite (b : Buffer) (bytes : Bytes) : (b.overwrite bytes).size = b.size :=
  Bytes.length_overlay b.store b.writeCursor bytes

theorem size_fill (b : Buffer) (bytes : Bytes) : (b.fill bytes).size = b.size :=
  b.size_overwrite bytes

theorem fill_nil (b : Buffer) : b.fill [] = b := by
  have hstore : b.store.overlay b.writeCursor [] = b.store := by
    rw [Bytes.overlay, List.take_nil, List.append_nil, List.length_nil, Nat.add_zero,
      List.take_append_drop]
  refine Buffer.ext rfl hstore rfl (Nat.min_eq_left ?_)
  rw [size_overwrite]
  exact b.writeCursor_le

theorem freeSize_fill (b : Buffer) (bytes : Bytes) :
    (b.fill bytes).freeSize = b.freeSize - bytes.length := by
  simp only [fill, advance, overwrite, freeSize, size, Bytes.length_overlay]
  omega

theorem size_consume (b : Buffer) (n : Nat) : (b.consume n).size = b.size := by
  unfold consume
  split <;> rfl

section Prepending

variable {b' : Buffer} {bytes : Bytes} (hprepend : b.prepend? bytes = some b')
include hprepend

theorem size_prepend : b'.size = b.size := by
  unfold prepend? at hprepend
  split_ifs at hprepend
  cases hprepend
  exact Bytes.length_overlay ..

theorem reserve_prepend : b'.reserve = b.reserve := by
  unfold prepend? at hprepend
  split_ifs at hprepend
  cases hprepend
  rfl

theorem readCursor_prepend : b'.readCursor = b.readCursor - bytes.length := by
  unfold prepend? at hprepend
  split_ifs at hprepend
  cases hprepend
  rfl

end Prepending

/-- What is in front of the unread bytes and behind them is too little just where the store is too
small for the reserve, the unread bytes and the new ones. -/
theorem freeSize_add_readCursor_lt_iff (b : Buffer) (n : Nat) :
    b.freeSize + b.readCursor < n + b.reserve ↔ b.size < b.reserve + b.unread.length + n := by
  have hsize := b.size_eq
  omega

theorem size_grow (b : Buffer) (n : Nat) :
    (b.grow n).size =
      if n ≤ b.freeSize then b.size else max b.size (b.reserve + b.unread.length + n) := by
  have hroom := b.freeSize_add_readCursor_lt_iff n
  unfold grow
  split_ifs with hfree hlarger
  · rfl
  · rw [Nat.max_eq_right (Nat.le_of_lt (hroom.mp hlarger))]
    simp only [enlarge, size, Bytes.length_overlay, List.length_replicate]
  · rw [Nat.max_eq_left (Nat.not_lt.mp fun hsmall => hlarger (hroom.mpr hsmall))]
    exact Bytes.length_overlay ..

theorem reserve_grow (b : Buffer) (n : Nat) : (b.grow n).reserve = b.reserve := by
  unfold grow
  split_ifs <;> rfl

theorem reserve_consume (b : Buffer) (n : Nat) : (b.consume n).reserve = b.reserve := by
  unfold consume
  split <;> rfl

theorem Sound.of_size {b' : Buffer} (hb : b.Sound) (hsize : b'.size = b.size) : b'.Sound :=
  ⟨hsize ▸ hb.size_le⟩

theorem size_withReserve (reserve initial : Nat) :
    (withReserve reserve initial).size = reserve + initial :=
  List.length_replicate

theorem eq_withReserve {reserve initial : Nat} (hcreate : create reserve initial = .ok b) :
    reserve + initial ≤ storeBound ∧ b = withReserve reserve initial := by
  unfold create at hcreate
  split_ifs at hcreate with hstore
  cases hcreate
  exact ⟨Nat.not_lt.mp hstore, rfl⟩

theorem sound_create {reserve initial : Nat} (hcreate : create reserve initial = .ok b) :
    b.Sound := by
  obtain ⟨hstore, rfl⟩ := eq_withReserve hcreate
  exact ⟨size_withReserve reserve initial ▸ hstore⟩

theorem Sound.grow (hb : b.Sound) {n : Nat} (hn : b.Affords n) : (b.grow n).Sound := by
  have hbound := hb.size_le
  unfold Affords at hn
  refine ⟨?_⟩
  rw [size_grow]
  split_ifs <;> omega

theorem Sound.growBy (hb : b.Sound) {n : Nat} (hn : b.Affords n) :
    b.growBy n = .ok (b.grow n) := by
  have hbound := hb.size_le
  have hword : storeBound < wordBound := by decide
  have hroom := b.freeSize_add_readCursor_lt_iff n
  have hlength := b.length_unread
  unfold Affords at hn
  unfold Buffer.growBy
  split_ifs with hfree hsum hstore
  · rw [Buffer.grow, if_pos hfree]
  · omega
  · omega
  · rfl

theorem Sound.appendBy (hb : b.Sound) {bytes : Bytes} (hbytes : b.Affords bytes.length) :
    b.appendBy bytes = .ok (b.append bytes) := by
  unfold Buffer.appendBy Buffer.append
  split_ifs
  · rfl
  · rw [hb.growBy hbytes]
    exact fillFree_of_le (b.le_freeSize_grow bytes.length)

theorem Sound.append (hb : b.Sound) {bytes : Bytes} (hbytes : b.Affords bytes.length) :
    (b.append bytes).Sound := by
  unfold Buffer.append
  split_ifs
  · exact hb
  · exact (hb.grow hbytes).of_size (size_fill _ _)

/-- A buffer with this reserve, in a store that is no larger than the bound. -/
structure Fits (reserve bound : Nat) (b : Buffer) : Prop where
  reserve : b.reserve = reserve
  size : b.size ≤ bound

variable {reserve bound n : Nat}

theorem Fits.grow (hb : b.Fits reserve bound) (hn : reserve + b.unread.length + n ≤ bound) :
    (b.grow n).Fits reserve bound where
  reserve := (b.reserve_grow n).trans hb.reserve
  size := by
    rw [size_grow, hb.reserve]
    split_ifs
    · exact hb.size
    · exact Nat.max_le.mpr ⟨hb.size, hn⟩

theorem Fits.fill (hb : b.Fits reserve bound) (bytes : Bytes) :
    (b.fill bytes).Fits reserve bound :=
  ⟨hb.reserve, Nat.le_trans (Nat.le_of_eq (b.size_fill bytes)) hb.size⟩

theorem Fits.consume (hb : b.Fits reserve bound) (n : Nat) : (b.consume n).Fits reserve bound :=
  ⟨(b.reserve_consume n).trans hb.reserve, Nat.le_trans (Nat.le_of_eq (b.size_consume n)) hb.size⟩

theorem fits_withCapacity (capacity : Nat) : (withCapacity capacity).Fits 0 capacity where
  reserve := rfl
  size := Nat.le_of_eq ((size_withReserve 0 capacity).trans (Nat.zero_add capacity))

end FrameLink.Buffer
