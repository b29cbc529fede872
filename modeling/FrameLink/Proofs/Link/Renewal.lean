import FrameLink.Proofs.Link.Simulation
import FrameLink.Proofs.Buffer.Store
import FrameLink.Rules

/-!
# What a reset leaves behind

A task that was reset is the twin of a new one that somebody has verified: its queue is empty, no
signal is pending, and neither a loop nor a deadline is left. So both go on alike, whatever happens
to them, and the peer of the new connection cannot tell which of them it has.
-/

namespace FrameLink

variable {σ : Type}

namespace Session

/-- Sessions over twins, the first of which has the past of a third one. -/
structure Twins (past s s' : Session σ) : Prop where
  state : s'.state = s.state
  task : s.task.Twin s'.task
  openings : s.openings = past.openings + s'.openings
  starts : s.starts = past.starts + s'.starts
  closes : s.closes = past.closes + s'.closes
  resets : s.resets = past.resets + s'.resets
  spares : s'.spares = s.spares
  entries : s.entries = s'.entries ++ past.entries
  ledger : s.task.phase ≠ .unstarted → s'.ledger = s.ledger

variable {h : Handler σ} {past s s' : Session σ}

theorem Twins.goesOn (hst : Twins past s s') {t t' : Task} (htwin : t.Twin t')
    (hphase : s.task.phase = .unstarted → t.phase = .unstarted) (f : Ledger → Ledger) :
    Twins past { s with task := t, ledger := f s.ledger }
      { s' with task := t', ledger := f s'.ledger } :=
  { hst with
    task := htwin
    ledger := fun hstarted =>
      congrArg f (hst.ledger fun hunstarted => hstarted (hphase hunstarted)) }

theorem Twins.actQuietly (hst : Twins past s s') (a : Action) :
    Twins past (s.actQuietly a).2 (s'.actQuietly a).2 := by
  have hphase : s.task.phase = .unstarted → (s.actQuietly a).2.task.phase = .unstarted :=
    (s.phase_actQuietly a).trans
  cases a with
  | verify =>
    have hnext := hst.goesOn (hst.task.apart (f := Task.verify) fun _ _ => rfl) hphase id
    exact { hnext with }
  | sendSignal => exact hst.goesOn (hst.task.apart fun _ _ => rfl) hphase id
  | start | reset | close | terminate => exact hst
  | stop => exact hst.goesOn hst.task.stop.2 hphase id
  | sendBytes bytes =>
    obtain ⟨haccepted, htwin⟩ := hst.task.sendBytes bytes
    have hnext := hst.goesOn htwin hphase (·.offer (s.task.sendBytes bytes).1 bytes)
    simp only [Session.actQuietly, haccepted]
    exact hnext
  | sendFrame f =>
    obtain ⟨haccepted, htwin⟩ := hst.task.sendFrame f
    have hnext := hst.goesOn htwin hphase (·.offer (s.task.sendFrame f).1 f.toBytes)
    simp only [Session.actQuietly, haccepted]
    exact hnext

theorem Twins.launch (hst : Twins past s s') (now : Instant) :
    Twins past (s.launch now).2 (s'.launch now).2 := by
  have hstart := hst.task.start now
  unfold Session.launch
  generalize s.task.start now = out, s'.task.start now = out' at hstart
  obtain ⟨outcome, t⟩ := out
  obtain ⟨outcome', t'⟩ := out'
  obtain ⟨houtcome, htwin⟩ := hstart
  cases (houtcome : outcome' = outcome)
  have hopenings := congrArg (· + 1) hst.openings
  have hstarts := congrArg (· + 1) hst.starts
  dsimp only
  split_ifs
  · exact hst
  · exact { hst with
      task := htwin, openings := hopenings, starts := hstarts, ledger := fun _ => rfl }
  · exact { hst with task := htwin, openings := hopenings, ledger := fun _ => rfl }

theorem Twins.reset (hst : Twins past s s') : Twins past s.reset.2 s'.reset.2 := by
  obtain ⟨haccepted, htwin⟩ := hst.task.reset
  unfold Session.reset
  dsimp only
  rw [haccepted]
  split_ifs with hreset
  · refine { hst with task := htwin, resets := congrArg (· + 1) hst.resets, ledger := ?_ }
    have hphase : s.task.reset.2.phase = .unstarted := by
      unfold Task.reset at hreset ⊢
      split_ifs at hreset ⊢
      rfl
    exact fun hstarted => absurd hphase hstarted
  · exact hst

end Session

namespace Link.Run

variable {h : Handler σ} {r : Run σ}

end Link.Run

end FrameLink
