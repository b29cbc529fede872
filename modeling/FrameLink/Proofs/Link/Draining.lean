import FrameLink.Proofs.Link.Deadline
import FrameLink.Proofs.Link.Outgoing

/-!
# What is out when a link has settled

If the peer reads, the first turn of the send loop writes all that its task has accepted. What comes
behind it in settling can only add to that, as long as the task stays on its stream, and at the end
the peer has read everything written.
-/

namespace FrameLink

/-! ## How a send loop ends -/

namespace Session

variable {σ : Type} {h : Handler σ} {now : Instant} {s s' : Session σ}

/-- A send loop that has ended had its stream fail, or ended in order. -/
def Ends (s : Session σ) : Prop :=
  ∀ exit, s.ledger.ending = some exit →
    (∃ e, exit = .failed (.io e)) ∨ Orderly (some exit)

theorem exit_runSendLoop {t : Task} {w : Writer} {exit : Task.Exit}
    (hexit : (t.runSendLoop now w).1 = some exit) :
    (∃ e, exit = .failed (.io e)) ∨ Orderly (some exit) := by
  match hresult : (t.writeAll w).1 with
  | .error e =>
    rw [Task.runSendLoop_of_error hresult] at hexit
    cases hexit
    exact .inl ⟨e, rfl⟩
  | .ok .waiting =>
    rw [Task.runSendLoop_of_waiting hresult] at hexit
    cases hexit
  | .ok .done =>
    rw [Task.runSendLoop_of_done hresult] at hexit
    split_ifs at hexit
    · cases hexit
      exact .inr (.inl rfl)
    · cases hexit
      exact .inr (.inr rfl)

theorem Step.ends (hstep : Step h now s s') (hs : s.Ends) : s'.Ends := by
  cases hstep with
  | effect heffect =>
    cases heffect with
    | verify | stop | signal | push | report | shut | discard | renew => exact hs
    | launch hunstarted =>
      rw [Ends, (phase_launch now hunstarted).2.2.2.2.2]
      exact nofun
  | enter | stray | inbound => exact hs
  | write | exit => exact fun _ => exit_runSendLoop

theorem Steps.ends (hsteps : Steps h now s s') (hs : s.Ends) : s'.Ends := by
  induction hsteps with
  | refl => exact hs
  | tail _ hstep ih => exact hstep.ends ih

theorem Ends.orderly (hs : s.Ends) (hends : s.ledger.ending ≠ none)
    (hio : ∀ e, s.ledger.ending ≠ some (.failed (.io e))) : Orderly s.ledger.ending := by
  obtain ⟨exit, hexit⟩ := Option.ne_none_iff_exists'.mp hends
  rw [hexit]
  refine (hs exit hexit).resolve_left ?_
  rintro ⟨e, rfl⟩
  exact hio e hexit

end Session

/-! ## Peers -/

/-- What settling leaves of the ways of a peer. -/
structure Peer.Stays (p p' : Peer) : Prop where
  deaf : p'.deaf = p.deaf
  gone : p'.gone = p.gone
  room : p'.room.isSome = p.room.isSome

theorem Peer.Stays.trans {p p' p'' : Peer} (hfirst : p.Stays p') (hsecond : p'.Stays p'') :
    p.Stays p'' :=
  ⟨hsecond.deaf.trans hfirst.deaf, hsecond.gone.trans hfirst.gone, hsecond.room.trans hfirst.room⟩

theorem Peer.Stays.reads {p p' : Peer} (hstays : p.Stays p') (hreads : p.Reads) : p'.Reads := by
  have hroom := hstays.room
  rw [hreads.goesOn, Option.isSome_none, Option.isSome_eq_false_iff, Option.isNone_iff_eq_none]
    at hroom
  exact ⟨hstays.deaf.trans hreads.hears, hstays.gone.trans hreads.stays, hroom⟩

theorem Peer.step_resume {p : Peer} (hgoesOn : p.room = none) : p.step .resume = p := by
  rw [Peer.step, ← hgoesOn]

theorem Peer.read_read (p : Peer) (ended : Bool) : (p.read ended).read ended = p.read ended := by
  by_cases hidle : p.gone || p.room.isSome
  · simp [Peer.read, hidle]
  · simp [Peer.read, hidle]

namespace Link

variable {σ : Type} {h : Handler σ} {now : Instant} {l : Link σ}

theorem stays_turn (hkept : (l.turn h now).session.resets = l.session.resets) :
    l.peer.Stays (l.turn h now).peer := by
  rw [peer_turn hkept]
  exact ⟨rfl, rfl, Option.isSome_map ..⟩

theorem stays_deliver (hkept : (l.deliver h now).session.resets = l.session.resets) :
    l.peer.Stays (l.deliver h now).peer := by
  rw [peer_deliver, if_pos hkept]
  exact ⟨rfl, rfl, rfl⟩

theorem stays_read (l : Link σ) : l.peer.Stays l.read.peer := by
  obtain ⟨hdeaf, hgone, hroom⟩ := read_flags l
  exact ⟨hdeaf, hgone, congrArg Option.isSome hroom⟩

theorem caughtUp_read (hgoesOn : l.peer.room = none) : l.read.caughtUp = l.read.peer := by
  rw [caughtUp, Peer.step_resume ((read_flags l).2.2.trans hgoesOn)]
  exact Peer.read_read _ _

theorem received_caughtUp (hl : l.Heard) (hphase : l.session.task.phase ≠ .unstarted)
    (hhears : l.peer.deaf = false) (hstays : l.peer.gone = false) :
    l.caughtUp.received = l.session.ledger.written := by
  have hheard := hl hhears hstays
  rw [if_neg hphase] at hheard
  rw [← hheard]
  simp [caughtUp, Peer.read, Peer.step, hstays]

/-! ## Settling on one stream -/

theorem written_turn (hs : l.session.Placed)
    (hkept : (l.turn h now).session.resets = l.session.resets) :
    l.session.ledger.written <+: (l.turn h now).session.ledger.written := by
  have hwritten : (l.turn h now).session.ledger.written =
      l.session.ledger.written ++ (l.session.flush h now l.peer.writer).2 :=
    Session.written_flush hs hkept
  exact ⟨_, hwritten.symm⟩

theorem written_deliver (hs : l.session.Placed)
    (hkept : (l.deliver h now).session.resets = l.session.resets) :
    (l.deliver h now).session.ledger.written = l.session.ledger.written := by
  rw [session_deliver] at hkept ⊢
  by_cases hphase : l.session.task.phase = .opened
  · rw [if_pos hphase] at hkept ⊢
    obtain ⟨frames, accepted, hledger⟩ := Session.ledger_deliver hs hkept
    rw [hledger]
  · rw [if_neg hphase]

/-- The first turn of a send loop writes all that its task has accepted to a peer that reads. -/
theorem written_turn_of_reads (hs : l.session.Sound) (hloops : l.session.task.loops.isSome = true)
    (hreads : l.peer.Reads) (hkept : (l.turn h now).session.resets = l.session.resets) :
    (l.turn h now).session.ledger.written = l.session.ledger.accepted := by
  have hwritten : (l.turn h now).session.ledger.written =
      l.session.ledger.written ++ (l.session.flush h now l.peer.writer).2 :=
    Session.written_flush hs.placed hkept
  rw [hwritten, hreads.writer]
  exact (Session.flush_willing h hs hloops now).1

/-- All that a task had accepted when its link began to settle is with a peer that reads, if the
task is on the same stream when the link has settled. -/
theorem prefix_received_settle {l : Link σ} (hl : (⟨now, l⟩ : Run σ).Sound)
    (hloops : l.session.task.loops.isSome = true) (hreads : l.peer.Reads)
    (hkept : (l.settle h now).session.resets = l.session.resets) :
    l.session.ledger.accepted <+: (l.settle h now).peer.received := by
  have hs : l.session.Sound := hl.session
  obtain ⟨hround, hsettle⟩ := settle_of_resets hs.placed hkept
  -- the task stays on its stream in each part of the round
  have hsteps := steps_turn (h := h) hs.placed now
  have hsteps' := steps_deliver (h := h) (hs.steps hsteps).placed now
  have hsteps'' := steps_turn (h := h) ((hs.steps hsteps).steps hsteps').placed now
  have hrest := Session.Steps.follows (hsteps'.trans hsteps'')
  have hall := Session.Steps.follows ((hsteps.trans hsteps').trans hsteps'')
  have hturned : (l.turn h now).session.resets = l.session.resets :=
    le_antisymm (hrest.resets.trans hround.le) hsteps.follows.resets
  have hdelivered : ((l.turn h now).deliver h now).session.resets = (l.turn h now).session.resets :=
    le_antisymm (hsteps''.follows.resets.trans (hround.trans hturned.symm).le)
      hsteps'.follows.resets
  have hlast : (l.round h now).session.resets = ((l.turn h now).deliver h now).session.resets :=
    hround.trans (hturned.symm.trans hdelivered.symm)
  have hphase : (l.round h now).session.task.phase ≠ .unstarted := by
    have hgoes := hall.goesOn_of_resets (hs.placed.begun hloops) hround
    exact mt hgoes.unstarted_iff.mp (hs.placed.begun hloops)
  have hreads' : (l.round h now).peer.Reads :=
    ((stays_turn hturned).trans ((stays_deliver hdelivered).trans (stays_turn hlast))).reads hreads
  have hheard : (l.round h now).Heard := (hl.reaches (Run.reaches_round h now l)).heard
  have hreceived : (l.round h now).read.peer.received =
      (l.round h now).session.ledger.written := by
    rw [← caughtUp_read hreads'.goesOn]
    have hread : (l.round h now).read.Heard :=
      (hl.reaches ((Run.reaches_round h now l).trans ⟨[.read], rfl⟩)).heard
    have hstays := (stays_read (l.round h now)).reads hreads'
    exact received_caughtUp hread hphase hstays.hears hstays.stays
  rw [hsettle, hreceived, ← written_turn_of_reads hs hloops hreads hturned,
    ← written_deliver (h := h) (hs.steps hsteps).placed hdelivered]
  exact written_turn ((hs.steps hsteps).steps hsteps').placed hlast

end Link

end FrameLink
