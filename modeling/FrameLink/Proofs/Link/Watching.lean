import FrameLink.Proofs.Link.Simulation

/-!
# Handlers that watch

A handler may keep a record beside the state of another handler and answer as that one does. Then it
leaves every run as it is, and its record tells about the runs of the other handler.
-/

namespace FrameLink

variable {σ τ : Type}

/-- A handler that answers as another one does, whose state it has in view. -/
structure Handler.Watches (view : τ → σ) (h' : Handler τ) (h : Handler σ) : Prop where
  onFrame : ∀ state task frame, h.onFrame (view state) task frame =
    (view (h'.onFrame state task frame).1, (h'.onFrame state task frame).2)
  onClose : ∀ state task, h.onClose (view state) task =
    (view (h'.onClose state task).1, (h'.onClose state task).2)

variable {view : τ → σ} {h' : Handler τ} {h : Handler σ}

namespace Session

def seen (view : τ → σ) (s : Session τ) : Session σ :=
  { s with state := view s.state }

theorem simulation_seen (hw : h'.Watches view h) :
    Simulation h' h 0 fun s t => t = s.seen view where
  task := by rintro s _ rfl; exact .refl s.task
  resets := by rintro s _ rfl; exact (Nat.zero_add _).symm
  spares := by rintro s _ rfl; rfl
  stock := by rintro s _ rfl spares; rfl
  actQuietly := by rintro s _ rfl a; cases a <;> rfl
  onClose := by rintro s _ rfl; exact congrArg Prod.snd (hw.onClose s.state s.task.shut)
  shut := by
    rintro s _ rfl _
    have hstate := congrArg Prod.fst (hw.onClose s.state s.task.shut)
    exact congrArg (fun state => { s.shut h' with state }) hstate
  launch := by
    rintro s _ rfl now
    unfold launch seen
    dsimp only
    split_ifs <;> rfl
  reset := by
    rintro s _ rfl
    unfold Session.reset seen
    dsimp only
    split_ifs <;> rfl
  report := by rintro s _ rfl entry; rfl
  onFrame := by rintro s _ rfl frame; exact congrArg Prod.snd (hw.onFrame s.state s.task frame)
  enter := by
    rintro s _ rfl current frame
    have hstate := congrArg Prod.fst (hw.onFrame s.state s.task frame)
    exact congrArg (fun state => { s.enter h' current frame with state }) hstate
  inbound := by rintro s _ rfl b; rfl
  wrote := by rintro s _ rfl now w; rfl

end Session

namespace Link

def seen (view : τ → σ) (l : Link τ) : Link σ :=
  ⟨l.session.seen view, l.peer⟩

namespace Run

def seen (view : τ → σ) (r : Run τ) : Run σ :=
  { r with link := r.link.seen view }

/-- A handler that watches leaves the run as it is. -/
theorem move_seen (hw : h'.Watches view h) (r : Run τ) (m : Move) :
    (r.seen view).move h m = ((r.move h' m).1, (r.move h' m).2.seen view) := by
  have hr : Related (fun s t => t = Session.seen view s) Eq r (r.seen view) := ⟨rfl, rfl, rfl⟩
  obtain ⟨houtcome, hnext⟩ := hr.move (Session.simulation_seen hw) Peer.simulation_eq m
  refine Prod.ext houtcome ?_
  obtain ⟨hnow, hsession, hpeer⟩ := hnext
  generalize ((r.seen view).move h m).2 = r', (r.move h' m).2 = r at hnow hsession hpeer ⊢
  obtain ⟨now', session', peer'⟩ := r'
  obtain ⟨now, session, peer⟩ := r
  cases hnow
  cases hsession
  cases hpeer
  rfl

end Run

end Link

end FrameLink
