import FrameLink.Proofs.Link.Simulation

/-!
# Reports

A run puts aside what it has recorded each time it reports an event. Runs that differ in such
records only go on alike: every event returns the same, and leaves them alike again. So runs with
reports are lists of moves too, and what the moves keep up holds for them.
-/

namespace FrameLink

variable {σ : Type}

namespace Session

variable {h : Handler σ} {s t : Session σ}

/-- The same sessions but for what is reported of them. -/
def Alike (s t : Session σ) : Prop :=
  ∃ entries ledger, t = { s with entries, ledger }

theorem Alike.placed (hst : s.Alike t) (ht : t.Placed) : s.Placed := by
  obtain ⟨entries, ledger, rfl⟩ := hst
  exact ⟨ht.opened, ht.connected, ht.taken, ht.balance⟩

theorem simulation_alike (h : Handler σ) : Simulation h h 0 Alike where
  task := by rintro s _ ⟨entries, ledger, rfl⟩; exact .refl s.task
  resets := by rintro s _ ⟨entries, ledger, rfl⟩; exact (Nat.zero_add _).symm
  spares := by rintro s _ ⟨entries, ledger, rfl⟩; rfl
  stock := by rintro s _ ⟨entries, ledger, rfl⟩ spares; exact ⟨entries, ledger, rfl⟩
  actQuietly := by
    rintro s _ ⟨entries, ledger, rfl⟩ a
    cases a <;> exact ⟨entries, _, rfl⟩
  onClose := by rintro s _ ⟨entries, ledger, rfl⟩; rfl
  shut := by rintro s _ ⟨entries, ledger, rfl⟩ _; exact ⟨entries, ledger, rfl⟩
  launch := by
    rintro s _ ⟨entries, ledger, rfl⟩ now
    unfold launch
    dsimp only
    split_ifs
    · exact ⟨entries, ledger, rfl⟩
    · exact ⟨entries, .blank, rfl⟩
    · exact ⟨entries, .blank, rfl⟩
  reset := by
    rintro s _ ⟨entries, ledger, rfl⟩
    unfold Session.reset
    dsimp only
    split_ifs <;> exact ⟨entries, ledger, rfl⟩
  report := by rintro s _ ⟨entries, ledger, rfl⟩ entry; exact ⟨entry :: entries, ledger, rfl⟩
  onFrame := by rintro s _ ⟨entries, ledger, rfl⟩ frame; rfl
  enter := by rintro s _ ⟨entries, ledger, rfl⟩ current frame; exact ⟨entries, _, rfl⟩
  inbound := by rintro s _ ⟨entries, ledger, rfl⟩ b; exact ⟨entries, ledger, rfl⟩
  wrote := by rintro s _ ⟨entries, ledger, rfl⟩ now w; exact ⟨entries, _, rfl⟩

end Session

namespace Peer

def Alike (p q : Peer) : Prop :=
  ∃ said received, q = { p with said, received }

theorem simulation_alike : Peer.Simulation Alike where
  writer := by rintro p _ ⟨said, received, rfl⟩; rfl
  ended := by rintro p _ ⟨said, received, rfl⟩; rfl
  inFlight := by rintro p _ ⟨said, received, rfl⟩; rfl
  step := by
    rintro p _ ⟨said, received, rfl⟩ e
    cases e <;> exact ⟨_, received, rfl⟩
  hear := by rintro p _ ⟨said, received, rfl⟩ written; exact ⟨said, received, rfl⟩
  post := by rintro p _ ⟨said, received, rfl⟩; exact ⟨said, received, rfl⟩
  take := by rintro p _ ⟨said, received, rfl⟩; exact ⟨said, received, rfl⟩
  read := by
    rintro p _ ⟨said, received, rfl⟩ ended
    unfold Peer.read
    dsimp only
    split_ifs <;> exact ⟨said, _, rfl⟩
  fresh := ⟨[], [], rfl⟩

end Peer

namespace Link.Run

variable {h : Handler σ} {r r' : Run σ}

abbrev Alike : Run σ → Run σ → Prop :=
  Related Session.Alike Peer.Alike

theorem Alike.reported (hr : Alike r r') : Alike { r with link := r.link.reported } r' := by
  obtain ⟨hnow, ⟨entries, ledger, hsession⟩, said, received, hpeer⟩ := hr
  exact ⟨hnow, ⟨entries, ledger, hsession⟩, said, received, hpeer⟩

theorem Alike.steps (hr : Alike r r') (events : List (Bool × Event)) :
    Alike (r.steps h events) (events.foldl (fun r e => (r.happen h e.1 e.2).2) r') := by
  induction events generalizing r r' with
  | nil => exact hr
  | cons e events ih =>
    exact ih (hr.reported.happen (Session.simulation_alike h) Peer.simulation_alike e.1 e.2).2

/-- A run that reports after each event is like the list of its moves: nothing depends on what is
put aside with a report. -/
theorem exists_moves_steps (r : Run σ) (events : List (Bool × Event)) :
    ∃ list, Alike (r.steps h events) (r.moves h list) := by
  obtain ⟨list, hlist⟩ := exists_moves_events (h := h) r events
  refine ⟨list, ?_⟩
  rw [hlist]
  exact Alike.steps ⟨rfl, ⟨_, _, rfl⟩, _, _, rfl⟩ events

end Link.Run

end FrameLink
