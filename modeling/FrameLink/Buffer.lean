import FrameLink.Bytes

/-!
# Buffers

A buffer is a store of bytes with two cursors. In front of the read cursor lie bytes that are done
with, between the cursors the unread bytes, and behind the write cursor the free ones, which keep
whatever was written there last. The first `reserve` bytes of the store are kept clear of data by
every move, so that a header can still be put in front of it.

Every operation copies inside a store and moves cursors; that the cursors stay in order and inside
the store is part of the type, so each operation shows it.
-/

namespace FrameLink

/-- A store of bytes with a read cursor and a write cursor. -/
@[ext]
structure Buffer where
  reserve : Nat
  store : Bytes
  readCursor : Nat
  writeCursor : Nat
  reserve_le : reserve ≤ store.length
  readCursor_le : readCursor ≤ writeCursor
  writeCursor_le : writeCursor ≤ store.length
deriving DecidableEq, Repr

namespace Buffer

inductive Fault
  /-- A sum of sizes is no machine word. -/
  | sizeOverflow
  | storeTooLarge
  /-- More bytes were written than are free. -/
  | noRoom
  | shortRead
  | wideInteger
deriving DecidableEq, Repr

def size (b : Buffer) : Nat :=
  b.store.length

def freeSize (b : Buffer) : Nat :=
  b.size - b.writeCursor

/-- The bytes from the write cursor to the end of the store. -/
def free (b : Buffer) : Bytes :=
  b.store.drop b.writeCursor

def unreadSize (b : Buffer) : Nat :=
  b.writeCursor - b.readCursor

/-- The bytes between the cursors. -/
def unread (b : Buffer) : Bytes :=
  (b.store.drop b.readCursor).take b.unreadSize

/-- An empty buffer with `initial` free bytes behind its reserve. -/
def withReserve (reserve initial : Nat) : Buffer where
  reserve := reserve
  store := List.replicate (reserve + initial) 0
  readCursor := reserve
  writeCursor := reserve
  reserve_le := by simp
  readCursor_le := Nat.le_refl reserve
  writeCursor_le := by simp

def withCapacity (initial : Nat) : Buffer :=
  withReserve 0 initial

def defaultSize : Nat := 100

def reset (b : Buffer) : Buffer :=
  { b with
    readCursor := b.reserve
    writeCursor := b.reserve
    readCursor_le := Nat.le_refl b.reserve
    writeCursor_le := b.reserve_le }

theorem length_unread (b : Buffer) : b.unread.length = b.unreadSize := by
  have hwriter := b.writeCursor_le
  rw [unread, List.length_take, List.length_drop, unreadSize]
  omega

theorem readCursor_add_length_unread (b : Buffer) :
    b.readCursor + b.unread.length = b.writeCursor := by
  have hreader := b.readCursor_le
  rw [length_unread, unreadSize]
  omega

theorem size_eq (b : Buffer) : b.size = b.readCursor + b.unread.length + b.freeSize := by
  have hwriter := b.writeCursor_le
  rw [readCursor_add_length_unread, freeSize, size]
  omega

/-- Copies the unread bytes to the reserve inside the store. -/
def compact (b : Buffer) (hfits : b.reserve + b.unread.length ≤ b.size) : Buffer where
  reserve := b.reserve
  store := b.store.overlay b.reserve b.unread
  readCursor := b.reserve
  writeCursor := b.reserve + b.unread.length
  reserve_le := by
    rw [Bytes.length_overlay]
    exact b.reserve_le
  readCursor_le := Nat.le_add_right _ _
  writeCursor_le := by
    rw [Bytes.length_overlay]
    exact hfits

/-- Copies the reserve and the unread bytes to a new store with exactly `n` more bytes. -/
def enlarge (b : Buffer) (n : Nat) : Buffer where
  reserve := b.reserve
  store := (Bytes.overlay (List.replicate (b.reserve + b.unread.length + n) 0) 0
    (b.store.take b.reserve)).overlay b.reserve b.unread
  readCursor := b.reserve
  writeCursor := b.reserve + b.unread.length
  reserve_le := by
    simp only [Bytes.length_overlay, List.length_replicate]
    omega
  readCursor_le := Nat.le_add_right _ _
  writeCursor_le := by
    simp only [Bytes.length_overlay, List.length_replicate]
    omega

/-- Makes room for `n` bytes. Nothing happens if they are free already. Otherwise the unread bytes
move to the reserve: to a larger store if what is free and what lies in front of them is too little
for the reserve and `n` bytes, and else inside the store. -/
def grow (b : Buffer) (n : Nat) : Buffer :=
  if n ≤ b.freeSize then b
  else if _hroom : b.freeSize + b.readCursor < n + b.reserve then b.enlarge n
  else b.compact (by
    have hsize := b.size_eq
    omega)

/-- Writes over the first free bytes, as somebody does who was lent them. -/
def overwrite (b : Buffer) (bytes : Bytes) : Buffer :=
  { b with
    store := b.store.overlay b.writeCursor bytes
    reserve_le := by
      rw [Bytes.length_overlay]
      exact b.reserve_le
    writeCursor_le := by
      rw [Bytes.length_overlay]
      exact b.writeCursor_le }

/-- Declares free bytes written, or all of them if there are no more. -/
def advance (b : Buffer) (n : Nat) : Buffer :=
  { b with
    writeCursor := min (b.writeCursor + n) b.size
    readCursor_le := by
      have hreader := b.readCursor_le
      have hwriter := b.writeCursor_le
      rw [size]
      omega
    writeCursor_le := Nat.min_le_right _ _ }

def fill (b : Buffer) (bytes : Bytes) : Buffer :=
  (b.overwrite bytes).advance bytes.length

def append (b : Buffer) (bytes : Bytes) : Buffer :=
  if bytes.isEmpty then b else (b.grow bytes.length).fill bytes

/-- Drops the first `n` unread bytes; a buffer that has nothing left starts over. -/
def consume (b : Buffer) (n : Nat) : Buffer :=
  if _hn : n < b.unreadSize then
    { b with
      readCursor := b.readCursor + n
      readCursor_le := by
        rw [unreadSize] at _hn
        omega }
  else b.reset

/-- Puts bytes in front of the unread ones, if there is room in front of the read cursor. -/
def prepend? (b : Buffer) (bytes : Bytes) : Option Buffer :=
  if b.readCursor < bytes.length then none
  else some { b with
    store := b.store.overlay (b.readCursor - bytes.length) bytes
    readCursor := b.readCursor - bytes.length
    reserve_le := by
      rw [Bytes.length_overlay]
      exact b.reserve_le
    readCursor_le := Nat.le_trans (Nat.sub_le _ _) b.readCursor_le
    writeCursor_le := by
      rw [Bytes.length_overlay]
      exact b.writeCursor_le }

def peek? (b : Buffer) (n : Nat) : Option Bytes :=
  if b.writeCursor < b.readCursor + n then none else some ((b.store.drop b.readCursor).take n)

theorem unread_reset (b : Buffer) : b.reset.unread = [] := by
  simp only [reset, unread, unreadSize, Nat.sub_self, List.take_zero]

theorem unread_compact (b : Buffer) (hfits : b.reserve + b.unread.length ≤ b.size) :
    (b.compact hfits).unread = b.unread := by
  rw [unread, unreadSize]
  simp only [compact, Nat.add_sub_cancel_left]
  exact Bytes.slice_overlay hfits

theorem unread_enlarge (b : Buffer) (n : Nat) : (b.enlarge n).unread = b.unread := by
  rw [unread, unreadSize]
  simp only [enlarge, Nat.add_sub_cancel_left]
  refine Bytes.slice_overlay ?_
  simp only [Bytes.length_overlay, List.length_replicate]
  omega

theorem unread_grow (b : Buffer) (n : Nat) : (b.grow n).unread = b.unread := by
  unfold grow
  split
  · rfl
  · split
    · exact b.unread_enlarge n
    · exact b.unread_compact _

theorem le_freeSize_grow (b : Buffer) (n : Nat) : n ≤ (b.grow n).freeSize := by
  unfold grow
  split
  · assumption
  · split
    · simp only [enlarge, freeSize, size, Bytes.length_overlay, List.length_replicate]
      omega
    · have hsize := b.size_eq
      simp only [compact, freeSize, size, Bytes.length_overlay]
      rw [size] at hsize
      omega

theorem unread_eq_slice (b : Buffer) :
    b.unread = (b.store.take b.writeCursor).drop b.readCursor :=
  List.drop_take.symm

theorem unread_overwrite (b : Buffer) (bytes : Bytes) : (b.overwrite bytes).unread = b.unread := by
  rw [unread_eq_slice, unread_eq_slice]
  simp only [overwrite, Bytes.take_overlay b.writeCursor_le]

theorem unread_advance {b : Buffer} {n : Nat} (hroom : n ≤ b.freeSize) :
    (b.advance n).unread = b.unread ++ b.free.take n := by
  have hreader := b.readCursor_le
  have hwriter := b.writeCursor_le
  have hsize : (b.advance n).unreadSize = b.unreadSize + n := by
    simp only [advance, unreadSize, freeSize, size] at hroom ⊢
    omega
  have hend : b.readCursor + b.unreadSize = b.writeCursor := by
    rw [unreadSize]
    omega
  rw [unread, hsize, List.take_add, List.drop_drop]
  simp only [advance, hend]
  rfl

theorem unread_fill {b : Buffer} {bytes : Bytes} (hroom : bytes.length ≤ b.freeSize) :
    (b.fill bytes).unread = b.unread ++ bytes := by
  have hwriter := b.writeCursor_le
  have hsize : (b.overwrite bytes).freeSize = b.freeSize := by
    simp only [overwrite, freeSize, size, Bytes.length_overlay]
  have hfits : b.writeCursor + bytes.length ≤ b.store.length := by
    rw [freeSize, size] at hroom
    omega
  have hwritten : (b.overwrite bytes).free.take bytes.length = bytes := Bytes.slice_overlay hfits
  rw [fill, unread_advance (hsize ▸ hroom), unread_overwrite, hwritten]

theorem length_unread_fill_le (b : Buffer) (bytes : Bytes) :
    (b.fill bytes).unread.length ≤ b.unread.length + bytes.length := by
  rw [length_unread, length_unread]
  simp only [fill, advance, overwrite, unreadSize]
  omega

theorem unread_append (b : Buffer) (bytes : Bytes) :
    (b.append bytes).unread = b.unread ++ bytes := by
  unfold append
  split
  · rename_i h
    rw [List.isEmpty_iff.1 h, List.append_nil]
  · rw [unread_fill (b.le_freeSize_grow bytes.length), unread_grow]

theorem length_unread_append (b : Buffer) (bytes : Bytes) :
    (b.append bytes).unread.length = b.unread.length + bytes.length := by
  rw [unread_append, List.length_append]

theorem unread_consume (b : Buffer) (n : Nat) : (b.consume n).unread = b.unread.drop n := by
  have hlength := b.length_unread
  unfold consume
  split
  · simp only [unread, unreadSize, List.drop_take, List.drop_drop, Nat.sub_sub]
  · rw [unread_reset, List.drop_eq_nil_iff.mpr (by omega)]

theorem length_unread_consume (b : Buffer) (n : Nat) :
    (b.consume n).unread.length = b.unread.length - n := by
  rw [unread_consume, List.length_drop]

/-! ## Operations with machine bounds

The sizes below come from a caller, and may be any machine word. -/

def create (reserve initial : Nat) : Except Fault Buffer :=
  if storeBound < reserve + initial then .error .storeTooLarge
  else .ok (withReserve reserve initial)

def growBy (b : Buffer) (n : Nat) : Except Fault Buffer :=
  if n ≤ b.freeSize then .ok b
  else if wordBound ≤ n + b.reserve then .error .sizeOverflow
  else if b.freeSize + b.readCursor < n + b.reserve ∧
      storeBound < b.reserve + b.unreadSize + n then .error .storeTooLarge
  else .ok (b.grow n)

def fillFree (b : Buffer) (bytes : Bytes) : Except Fault Buffer :=
  if b.freeSize < bytes.length then .error .noRoom else .ok (b.fill bytes)

/-- `append` step by step: the bytes have to fit behind the growing. -/
def appendBy (b : Buffer) (bytes : Bytes) : Except Fault Buffer :=
  if bytes.isEmpty then .ok b
  else do
    let b ← b.growBy bytes.length
    b.fillFree bytes

def advanceWriter (b : Buffer) (n : Nat) : Except Fault Buffer :=
  if b.freeSize < n then .error .noRoom else .ok (b.advance n)

/-- `peek?` where the end of the bytes asked for has to be a machine word. -/
def peek (b : Buffer) (n : Nat) : Except Fault (Option Bytes) :=
  if wordBound ≤ b.readCursor + n then .error .sizeOverflow else .ok (b.peek? n)

def read (b : Buffer) (n : Nat) : Except Fault (Bytes × Buffer) :=
  if b.unreadSize < n then .error .shortRead else .ok (b.unread.take n, b.consume n)

def readUnsigned (b : Buffer) (n : Nat) : Except Fault (Nat × Buffer) :=
  if 8 < n then .error .wideInteger
  else (b.read n).map fun (bytes, b) => (Bytes.value bytes, b)

def readSigned (b : Buffer) (n : Nat) : Except Fault (Int × Buffer) :=
  if 8 < n then .error .wideInteger
  else (b.read n).map fun (bytes, b) => (Bytes.signedValue bytes, b)

/-- Takes an unsigned integer of `n` bytes out whose least significant byte is first. -/
def readReversed (b : Buffer) (n : Nat) : Except Fault (Nat × Buffer) :=
  (b.read n).map fun (bytes, b) => (Bytes.value bytes.reverse, b)

def describe (b : Buffer) : String :=
  "ByteBuffer \x7b buf: [" ++ ", ".intercalate (b.store.map fun x => toString x.toNat)
    ++ "], prepend: " ++ toString b.reserve ++ ", reader: " ++ toString b.readCursor
    ++ ", writer: " ++ toString b.writeCursor ++ " \x7d"

end Buffer

end FrameLink
