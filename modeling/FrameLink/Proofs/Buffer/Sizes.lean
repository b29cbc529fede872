import FrameLink.Proofs.Buffer.Queue

/-!
# Reads of any size

The size that a reader asks for may be any machine word. To drop so many bytes never goes wrong,
since the size is compared with the number of unread bytes. To look at so many bytes goes wrong
where the sum of the read cursor and the size is no word, and there only.
-/

namespace FrameLink.Buffer

variable {b : Buffer}

theorem Sound.writeCursor_lt (hb : b.Sound) : b.writeCursor < wordBound := by
  have hwithin := b.writeCursor_le
  have hword : storeBound < wordBound := by decide
  have hsize := hb.size_le
  rw [size] at hsize
  omega

theorem readCursor_consume (b : Buffer) (n : Nat) :
    (b.consume n).readCursor =
      if n < b.unread.length then b.readCursor + n else b.reserve := by
  rw [length_unread]
  unfold consume
  split_ifs <;> rfl

/-- Bytes that are there are always found: their end is inside the store. -/
theorem Sound.peek_eq (hb : b.Sound) (n : Nat) :
    b.peek n =
      if n ≤ b.unread.length then .ok (some (b.unread.take n))
      else if b.readCursor + n < wordBound then .ok none else .error .sizeOverflow := by
  have hwriter := hb.writeCursor_lt
  have hend := b.readCursor_add_length_unread
  rw [peek, peek?_eq]
  split_ifs with hword hfound
  · omega
  · omega
  · rfl
  · rfl
  · rfl
  · omega

/-- In every state that proper use can bring a buffer to, and for every size: to drop this many
bytes drops as many as there are, and both cursors stay words. To look at this many bytes finds them
if they are there, and otherwise finds none, except that it fails where their end is no word. -/
theorem reads_any_size {reserve initial : Nat} {b : Buffer}
    (hcreate : create reserve initial = .ok b) {list : List Use}
    (hlist : Bench.Admits ⟨b, none⟩ list) (n : Nat) :
    let w := Bench.uses ⟨b, none⟩ list
    let unread := w.buffer.unread
    w.step (.peek n) =
        (if n ≤ unread.length then .bytes (unread.take n)
          else if w.buffer.readCursor + n < wordBound then .missing
          else .fault .sizeOverflow, w) ∧
      ∃ rest : Buffer, w.step (.consume n) = (.done, { w with buffer := rest }) ∧
        rest.unread = unread.drop (min n unread.length) ∧
        rest.readCursor =
          (if n < unread.length then w.buffer.readCursor + n else w.buffer.reserve) ∧
        rest.readCursor ≤ rest.writeCursor ∧ rest.writeCursor < wordBound := by
  intro w unread
  have hinit : Bench.Sound ⟨b, none⟩ := ⟨sound_create hcreate, fun _ hspare => by cases hspare⟩
  have hb : w.buffer.Sound := (Bench.queue_uses hinit hlist).1.buffer
  have hrest : (w.buffer.consume n).Sound := hb.of_size (size_consume w.buffer n)
  refine ⟨?_, w.buffer.consume n, rfl, ?_, readCursor_consume w.buffer n,
    (w.buffer.consume n).readCursor_le, hrest.writeCursor_lt⟩
  · rw [Bench.step, hb.peek_eq]
    split_ifs <;> rfl
  · rw [unread_consume]
    rcases Nat.le_total n unread.length with hle | hle
    · rw [Nat.min_eq_left hle]
    · rw [Nat.min_eq_right hle, List.drop_length, List.drop_eq_nil_iff.mpr hle]

/-- A part, more than there is, and the longest size there is, of three bytes behind one that was
dropped. -/
theorem reads_any_size_threeBytes :
    let list : List Use := [.step (.append [1, 2, 3, 4]), .step (.consume 1)]
    let w := Bench.uses ⟨withCapacity 4, none⟩ list
    (create 0 4 = .ok (withCapacity 4) ∧ Bench.Admits ⟨withCapacity 4, none⟩ list) ∧
      w.step (.peek 2) = (.bytes [2, 3], w) ∧ w.step (.peek 4) = (.missing, w) ∧
      (w.step (.consume (wordBound - 1))).2.buffer.unread = [] := by
  intro list w
  have hcreate : create 0 4 = .ok (withCapacity 4) := by decide
  have hlist : Bench.Admits ⟨withCapacity 4, none⟩ list := by decide
  have hunread : w.buffer.unread = [2, 3, 4] := by decide
  obtain ⟨hpart, -⟩ := reads_any_size hcreate hlist 2
  obtain ⟨hmore, -⟩ := reads_any_size hcreate hlist 4
  obtain ⟨-, rest, hconsume, hrest, -⟩ := reads_any_size hcreate hlist (wordBound - 1)
  refine ⟨⟨hcreate, hlist⟩, hpart, hmore, ?_⟩
  rw [hconsume]
  dsimp only
  rw [hrest, hunread]
  decide

/-- Fewer bytes are there than are asked for, and the answer is a failure. -/
theorem peek_fails_behind_unread :
    let list : List Use := [.step (.append [1, 2]), .step (.consume 1)]
    let w := Bench.uses ⟨withCapacity 4, none⟩ list
    create 0 4 = .ok (withCapacity 4) ∧ Bench.Admits ⟨withCapacity 4, none⟩ list ∧
      w.buffer.unread.length < wordBound - 1 ∧
      (w.step (.peek (wordBound - 1))).1 = .fault .sizeOverflow := by
  decide

end FrameLink.Buffer
