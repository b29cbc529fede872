import FrameLink.Proofs.Buffer.History

/-!
# How stores grow

A request that fits changes nothing. Any other one needs a store for the reserve, the unread bytes
and the bytes asked for: if the store is as large as that the unread bytes move inside it, and
otherwise it is replaced by one of just this size. So the size of a store is the largest that was
ever needed, or the first one.
-/

namespace FrameLink.Buffer

variable {b : Buffer}

theorem take_store_grow (b : Buffer) (n : Nat) :
    (b.grow n).store.take b.reserve = b.store.take b.reserve := by
  have hlength : (b.store.take b.reserve).length = b.reserve := by
    rw [List.length_take, Nat.min_eq_left b.reserve_le]
  unfold Buffer.grow
  split_ifs
  · rfl
  · -- the reserve is copied to the larger store
    have hwithin : b.reserve ≤ (Bytes.overlay (List.replicate (b.reserve + b.unread.length + n) 0) 0
        (b.store.take b.reserve)).length := by
      rw [Bytes.length_overlay, List.length_replicate]
      omega
    have hcopied : 0 + (b.store.take b.reserve).length ≤
        (List.replicate (b.reserve + b.unread.length + n) (0 : UInt8)).length := by
      rw [List.length_replicate, hlength]
      omega
    have hfront := Bytes.slice_overlay hcopied
    rw [List.drop_zero, hlength] at hfront
    exact (Bytes.take_overlay hwithin b.unread).trans hfront
  · exact Bytes.take_overlay b.reserve_le b.unread

/-- The size that a store needs for a request that does not fit, in front of those needed before. -/
def noteDemand (b : Buffer) (u : Use) (demands : List Nat) : List Nat :=
  if u.Moves b then (b.reserve + b.unread.length + u.request) :: demands else demands

/-- A store with its reserve and of the largest size that was needed. -/
def Peak (reserve first : Nat) (b : Buffer) (demands : List Nat) : Prop :=
  b.reserve = reserve ∧ b.size = demands.foldr max first

theorem Peak.use {reserve first : Nat} {w : Bench} {u : Use} {demands : List Nat} (hw : w.Sound)
    (hu : u.Proper w.buffer) (hstays : u.Stays) (hpeak : Peak reserve first w.buffer demands) :
    Peak reserve first (w.use u).buffer (noteDemand w.buffer u demands) := by
  obtain ⟨hreserve, hsize⟩ := hpeak
  have hshifts := shifts_use hw hu hstays
  refine ⟨hshifts.reserve.trans hreserve, ?_⟩
  rw [hshifts.size, noteDemand]
  split_ifs with hmoves
  · rw [List.foldr_cons, hsize, Nat.max_comm]
  · exact hsize

theorem size_le_use {w : Bench} {u : Use} (hw : w.Sound) (hu : u.Proper w.buffer)
    (hswap : u ≠ .step .swap) : w.buffer.size ≤ (w.use u).buffer.size := by
  by_cases hstays : u.Stays
  · rw [(shifts_use hw hu hstays).size]
    split_ifs
    · exact Nat.le_max_left _ _
    · exact Nat.le_refl _
  · have hsave := (Use.cases_of_not_stays hstays).resolve_right hswap
    subst hsave
    exact Nat.le_refl _

theorem size_le_uses {w : Bench} (hw : w.Sound) {list : List Use} (hlist : w.Admits list)
    (hswap : ∀ u ∈ list, u ≠ .step .swap) : w.buffer.size ≤ (w.uses list).buffer.size := by
  induction list generalizing w with
  | nil => exact Nat.le_refl _
  | cons u list ih =>
    obtain ⟨hu, hrest⟩ := hlist
    obtain ⟨hfirst, hlater⟩ := List.forall_mem_cons.mp hswap
    exact Nat.le_trans (size_le_use hw hu hfirst) (ih (hw.use hu) hrest hlater)

/-- Whatever is done properly with a new buffer, its store has the largest of its first size and of
the sizes that were needed for requests that did not fit, and it never gets smaller. Every request
makes room for as many bytes as it asks for, and leaves the unread bytes and the first bytes of the
store, up to the reserve, as they are. If there is room before, nothing changes. Otherwise the
unread bytes start at the reserve afterwards, in the same store if that is large enough, and else in
one that is just large enough. -/
theorem size_eq_largest_demand {reserve initial : Nat} {b : Buffer}
    (hcreate : create reserve initial = .ok b) {list : List Use}
    (hlist : Bench.Admits ⟨b, none⟩ list) :
    let w := Bench.uses ⟨b, none⟩ list
    let demands := (Notes.uses noteDemand ⟨b, none⟩ ⟨[], []⟩ list).buffer
    (w.buffer.reserve = reserve ∧ w.buffer.size = demands.foldr max (reserve + initial)) ∧
      (∀ later, w.Admits later → (∀ u ∈ later, u ≠ .step .swap) →
        w.buffer.size ≤ (w.uses later).buffer.size) ∧
      ∀ n, w.buffer.Affords n →
        let needed := reserve + w.buffer.unread.length + n
        ∃ grown : Buffer, w.step (.grow n) = (.done, { w with buffer := grown }) ∧
          n ≤ grown.freeSize ∧ grown.unread = w.buffer.unread ∧
          grown.store.take reserve = w.buffer.store.take reserve ∧
          (n ≤ w.buffer.freeSize → grown = w.buffer) ∧
          (w.buffer.freeSize < n →
            grown.readCursor = reserve ∧
            (grown.store.drop reserve).take w.buffer.unread.length = w.buffer.unread ∧
            grown.size = if needed ≤ w.buffer.size then w.buffer.size else needed) := by
  intro w demands
  have hw : w.Sound := Bench.sound_uses hcreate hlist
  have hb := hw.buffer
  have hfirst : Peak reserve (reserve + initial) b [] := by
    obtain ⟨-, rfl⟩ := eq_withReserve hcreate
    exact ⟨rfl, size_withReserve reserve initial⟩
  have hpeak : Peak reserve (reserve + initial) w.buffer demands :=
    Notes.holds_uses (fun _ _ _ => Peak.use) hcreate hfirst hlist
  have hreserve := hpeak.1
  refine ⟨hpeak, fun later => size_le_uses hw, fun n hn => ?_⟩
  refine ⟨w.buffer.grow n, ?_, le_freeSize_grow w.buffer n, unread_grow w.buffer n, ?_,
    fun hroom => if_pos hroom, fun hshort => ?_⟩
  · rw [Bench.step, hb.growBy hn]
    rfl
  · rw [← hreserve]
    exact w.buffer.take_store_grow n
  · have hreader : (w.buffer.grow n).readCursor = reserve := by
      rw [readCursor_grow, if_pos hshort, hreserve]
    refine ⟨hreader, ?_, ?_⟩
    · have hslice : ((w.buffer.grow n).store.drop (w.buffer.grow n).readCursor).take
          (w.buffer.grow n).unread.length = (w.buffer.grow n).unread := by
        rw [length_unread]
        rfl
      rwa [hreader, unread_grow] at hslice
    · rw [size_grow, if_neg (Nat.not_le.mpr hshort), hreserve]
      split_ifs <;> omega

/-- A move inside the store, then one to a larger store, of bytes that begin in front of the
reserve. -/
theorem size_eq_largest_demand_bothMoves :
    let list : List Use := [.step (.append [1, 2, 3, 4, 5]), .step (.consume 3), .step (.grow 3),
      .step (.prepend [8, 9])]
    let w := Bench.uses ⟨withReserve 2 6, none⟩ list
    (create 2 6 = .ok (withReserve 2 6) ∧ Bench.Admits ⟨withReserve 2 6, none⟩ list ∧
        w.buffer.Affords 5) ∧
      w.buffer.readCursor = 0 ∧ w.buffer.size = [7].foldr max 8 ∧
      ∃ grown : Buffer, w.step (.grow 5) = (.done, { w with buffer := grown }) ∧
        grown.unread = [8, 9, 4, 5] ∧ grown.readCursor = 2 ∧ grown.size = 11 := by
  intro list w
  have hcreate : create 2 6 = .ok (withReserve 2 6) := by decide
  have hlist : Bench.Admits ⟨withReserve 2 6, none⟩ list := by decide
  have hroom : w.buffer.Affords 5 := by decide
  have hunread : w.buffer.unread = [8, 9, 4, 5] := by decide
  have hsize : w.buffer.size = 8 := by decide
  obtain ⟨⟨-, hpeak⟩, -, hgrow⟩ := size_eq_largest_demand hcreate hlist
  obtain ⟨grown, hstep, -, hkept, -, -, hmoved⟩ := hgrow 5 hroom
  obtain ⟨hreader, -, hgrown⟩ := hmoved (by decide)
  refine ⟨⟨hcreate, hlist, hroom⟩, by decide, hpeak, grown, hstep, hkept.trans hunread, hreader, ?_⟩
  rw [hgrown, hunread, hsize]
  rfl

end FrameLink.Buffer
