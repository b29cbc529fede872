import FrameLink.Proofs.Buffer.History

/-!
# Room for a header

A buffer that starts at its reserve has room for a header of this length. Bytes put in front use the
room up. Reads only add to it, and a buffer that is emptied, or whose unread bytes have to move,
starts at its reserve again, with the bytes put in front still the first ones.
-/

namespace FrameLink.Buffer

/-- Whether bytes were put in front since the buffer started at its reserve. -/
def noteFront (b : Buffer) (u : Use) (fronted : Bool) : Bool :=
  if u.Fronts b then true else if u.Renews b then false else fronted

/-- A buffer with this reserve, and with room for as much if no bytes were put in front of it. -/
def Headroom (reserve : Nat) (b : Buffer) (fronted : Bool) : Prop :=
  b.reserve = reserve ∧ (fronted = false → reserve ≤ b.readCursor)

variable {reserve : Nat} {w : Bench} {u : Use}

theorem Headroom.use {fronted : Bool} (hw : w.Sound) (hu : u.Proper w.buffer) (hstays : u.Stays)
    (hroom : Headroom reserve w.buffer fronted) :
    Headroom reserve (w.use u).buffer (noteFront w.buffer u fronted) := by
  obtain ⟨hreserve, hreader⟩ := hroom
  have hshifts := shifts_use hw hu hstays
  refine ⟨hshifts.reserve.trans hreserve, fun hnone => ?_⟩
  unfold noteFront at hnone
  split_ifs at hnone with hfronts hrenews
  · rw [hshifts.renewed hrenews, hreserve]
  · exact Nat.le_trans (hreader hnone) (hshifts.onward hfronts hrenews)

theorem Use.Moves.stays {b : Buffer} (hmoves : u.Moves b) : u.Stays := by
  rcases hmoves.cases with ⟨bytes, rfl⟩ | ⟨n, rfl⟩ <;> trivial

theorem Use.Moves.leavesFront {b : Buffer} (hmoves : u.Moves b) : u.LeavesFront := by
  rcases hmoves.cases with ⟨bytes, rfl⟩ | ⟨n, rfl⟩ <;> trivial

theorem Use.Moves.taken_eq {b : Buffer} (hmoves : u.Moves b) : u.taken b = 0 := by
  rcases hmoves.cases with ⟨bytes, rfl⟩ | ⟨n, rfl⟩ <;> rfl

theorem unread_prepended {header : Bytes} (hdone : (w.step (.prepend header)).1 = .flag true) :
    (w.step (.prepend header)).2.buffer.unread = header ++ w.buffer.unread := by
  rcases Bench.step_prepend w header with ⟨-, b, -, hunread, hstep⟩ | ⟨-, hstep⟩
  · rw [hstep]
    exact hunread
  · rw [hstep] at hdone
    cases hdone

theorem headroom_uses {b : Buffer} {initial : Nat} (hcreate : create reserve initial = .ok b)
    {list : List Use} (hlist : Bench.Admits ⟨b, none⟩ list) :
    Headroom reserve (Bench.uses ⟨b, none⟩ list).buffer
      (Notes.uses noteFront ⟨b, none⟩ ⟨false, false⟩ list).buffer := by
  have hfirst : Headroom reserve b false := by
    obtain ⟨-, rfl⟩ := eq_withReserve hcreate
    exact ⟨rfl, fun _ => Nat.le_refl reserve⟩
  exact Notes.holds_uses (fun _ _ _ => Headroom.use) hcreate hfirst hlist

theorem moved_use {b : Buffer} {initial : Nat} (hcreate : create reserve initial = .ok b)
    {list : List Use} (hlist : Bench.Admits ⟨b, none⟩ list) :
    let w := Bench.uses ⟨b, none⟩ list
    u.Proper w.buffer → u.Moves w.buffer →
      (w.use u).buffer.readCursor = reserve ∧ w.buffer.unread <+: (w.use u).buffer.unread := by
  intro w hu hmoves
  have hshifts := shifts_use (Bench.sound_uses hcreate hlist) hu hmoves.stays
  have hfront := hshifts.front hmoves.leavesFront
  rw [hmoves.taken_eq, List.drop_zero] at hfront
  exact ⟨(hshifts.renewed (.inr hmoves)).trans (headroom_uses hcreate hlist).1, hfront⟩

/-- As long as no bytes were put in front since a new buffer was made, emptied, or had to move its
unread bytes, there is room for every header that is no longer than the reserve, and it goes in
front of the unread bytes. Bytes that were put in front stay the first ones until they are taken
out. So they still are when the unread bytes have to move, and the reserve is free in front of them
again. Bytes for which there is no room change nothing. -/
theorem header_fits {initial : Nat} {b : Buffer} (hcreate : create reserve initial = .ok b)
    {list : List Use} (hlist : Bench.Admits ⟨b, none⟩ list) :
    let w := Bench.uses ⟨b, none⟩ list
    let fronted := (Notes.uses noteFront ⟨b, none⟩ ⟨false, false⟩ list).buffer
    (fronted = false → reserve ≤ w.buffer.readCursor ∧
        ∀ header : Bytes, header.length ≤ reserve → ∃ b' : Buffer,
          w.step (.prepend header) = (.flag true, { w with buffer := b' }) ∧
          b'.unread = header ++ w.buffer.unread) ∧
      ∀ header : Bytes,
        ((w.step (.prepend header)).1 = .flag true → ∀ (later : List Use) (u : Use),
          let v := (w.step (.prepend header)).2
          let moved := (v.uses later).use u
          v.Admits (later ++ [u]) → u.Moves (v.uses later).buffer →
            moved.buffer.readCursor = reserve ∧
            (v.uses later).buffer.unread <+: moved.buffer.unread ∧
            ((∀ u ∈ later, u.LeavesFront) →
              (header ++ w.buffer.unread).drop (v.taken later) <+: moved.buffer.unread)) ∧
        ((w.step (.prepend header)).1 = .flag false → (w.step (.prepend header)).2 = w) := by
  intro w fronted
  have hw : w.Sound := Bench.sound_uses hcreate hlist
  refine ⟨fun hnone => ?_, fun header => ⟨?_, ?_⟩⟩
  · have hreader := (headroom_uses hcreate hlist).2 hnone
    refine ⟨hreader, fun header hfits => ?_⟩
    rcases Bench.step_prepend w header with ⟨-, b', -, hunread, hstep⟩ | ⟨hshort, -⟩
    · exact ⟨b', hstep, hunread⟩
    · exact absurd (Nat.le_trans hfits hreader) (Nat.not_le.mpr hshort)
  · intro hdone later u v moved hlater hmoves
    have hv : v.Sound := (Bench.agrees_step (s := .prepend header) hw trivial).sound
    have hfront : v.buffer.unread = header ++ w.buffer.unread := unread_prepended hdone
    obtain ⟨hbefore, hu, -⟩ := (Bench.admits_append v later [u]).mp hlater
    have hwhole : Bench.Admits ⟨b, none⟩ (list ++ .step (.prepend header) :: later) :=
      (Bench.admits_append _ _ _).mpr ⟨hlist, trivial, hbefore⟩
    have huses : Bench.uses ⟨b, none⟩ (list ++ .step (.prepend header) :: later) = v.uses later :=
      Bench.uses_append _ _ _
    obtain ⟨hreader, hkept⟩ := moved_use (u := u) hcreate hwhole (huses ▸ hu) (huses ▸ hmoves)
    rw [huses] at hreader hkept
    refine ⟨hreader, hkept, fun hleaves => ?_⟩
    rw [← hfront]
    exact (front_uses hv hbefore hleaves).trans hkept
  · rcases Bench.step_prepend w header with ⟨-, b', -, -, hstep⟩ | ⟨-, hstep⟩
    · rw [hstep]
      exact nofun
    · rw [hstep]
      exact fun _ => rfl

/-- A header in front of bytes that were moved behind another one, and a move of what is left after
a part of it was read. -/
theorem header_fits_twice :
    let list : List Use := [.step (.append [1, 2, 3]), .step (.prepend [8, 9]), .step (.append [4])]
    let w := Bench.uses ⟨withReserve 2 2, none⟩ list
    let v := (w.step (.prepend [6, 7])).2
    let later : List Use := [.step (.consume 1)]
    let u : Use := .step (.append [5])
    (create 2 2 = .ok (withReserve 2 2) ∧ Bench.Admits ⟨withReserve 2 2, none⟩ list ∧
        v.Admits (later ++ [u]) ∧ u.Moves (v.uses later).buffer) ∧
      (∃ b' : Buffer, w.step (.prepend [6, 7]) = (.flag true, { w with buffer := b' }) ∧
        b'.unread = [6, 7, 8, 9, 1, 2, 3, 4]) ∧
      ((v.uses later).use u).buffer.readCursor = 2 ∧
      [7, 8, 9, 1, 2, 3, 4] <+: ((v.uses later).use u).buffer.unread := by
  intro list w v later u
  have hcreate : create 2 2 = .ok (withReserve 2 2) := by decide
  have hlist : Bench.Admits ⟨withReserve 2 2, none⟩ list := by decide +kernel
  have hlater : v.Admits (later ++ [u]) := by decide +kernel
  have hmoves : u.Moves (v.uses later).buffer := by decide +kernel
  have hunread : w.buffer.unread = [8, 9, 1, 2, 3, 4] := by decide +kernel
  obtain ⟨hroom, hfront⟩ := header_fits hcreate hlist
  obtain ⟨-, hfits⟩ := hroom (by decide +kernel)
  obtain ⟨b', hstep, hheader⟩ := hfits [6, 7] (by decide)
  have hv : v = ((Bench.uses ⟨withReserve 2 2, none⟩ list).step (.prepend [6, 7])).2 := rfl
  obtain ⟨hreader, -, hfirst⟩ :=
    (hfront [6, 7]).1 (congrArg Prod.fst hstep) later u hlater hmoves
  have hleft : ([6, 7] ++ w.buffer.unread).drop 1 <+: ((v.uses later).use u).buffer.unread :=
    hfirst (List.forall_mem_singleton.mpr trivial)
  have hwhole : [6, 7] ++ w.buffer.unread = [6, 7, 8, 9, 1, 2, 3, 4] := by
    rw [hunread]
    rfl
  rw [hwhole] at hleft
  refine ⟨⟨hcreate, hlist, hlater, hmoves⟩, ⟨b', hstep, hheader.trans hwhole⟩, ?_, hleft⟩
  rw [hv]
  exact hreader

end FrameLink.Buffer
