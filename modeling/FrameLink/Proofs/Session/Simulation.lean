import FrameLink.Proofs.Session.Loops
import FrameLink.Proofs.Twins

/-!
# Sessions that go on alike

A simulation is a relation between sessions that no step breaks: tasks that are twins, handlers that
answer alike, counts of resets that differ by what one session has behind it. Then no operation
breaks it either, and every operation answers the same on both sides.
-/

namespace FrameLink.Session

variable {σ τ : Type} {h : Handler σ} {h' : Handler τ} {past : Nat}
  {R : Session σ → Session τ → Prop}

/-- The first of two related sessions has so many resets behind it that the second one has not. -/
structure Simulation (h : Handler σ) (h' : Handler τ) (past : Nat)
    (R : Session σ → Session τ → Prop) : Prop where
  task {s s'} (hst : R s s') : s.task.Twin s'.task
  resets {s s'} (hst : R s s') : s.resets = past + s'.resets
  spares {s s'} (hst : R s s') : s'.spares = s.spares
  stock {s s'} (hst : R s s') (spares : Nat) : R { s with spares } { s' with spares }
  actQuietly {s s'} (hst : R s s') (a : Action) : R (s.actQuietly a).2 (s'.actQuietly a).2
  onClose {s s'} (hst : R s s') :
    (h'.onClose s'.state s'.task.shut).2 = (h.onClose s.state s.task.shut).2
  shut {s s'} (hst : R s s') (hopen : s.task.isOpen = true) : R (s.shut h) (s'.shut h')
  launch {s s'} (hst : R s s') (now : Instant) : R (s.launch now).2 (s'.launch now).2
  reset {s s'} (hst : R s s') : R s.reset.2 s'.reset.2
  report {s s'} (hst : R s s') (entry : Entry) : R (s.report entry) (s'.report entry)
  onFrame {s s'} (hst : R s s') (frame : Bytes) :
    (h'.onFrame s'.state s'.task frame).2 = (h.onFrame s.state s.task frame).2
  enter {s s'} (hst : R s s') (current : Bool) (frame : Bytes) :
    R (s.enter h current frame) (s'.enter h' current frame)
  inbound {s s'} (hst : R s s') (b : Buffer) :
    R { s with task := s.task.setInbound b } { s' with task := s'.task.setInbound b }
  wrote {s s'} (hst : R s s') (now : Instant) (w : Writer) : R (s.wrote now w) (s'.wrote now w)

namespace Simulation

variable {s t : Session σ} {s' t' : Session τ}

theorem resets_iff (hR : Simulation h h' past R) (hst : R s s') (ht : R t t') :
    t'.resets = s'.resets ↔ t.resets = s.resets := by
  rw [hR.resets hst, hR.resets ht, Nat.add_left_cancel_iff]

theorem outcome_actQuietly (hR : Simulation h h' past R) (hst : R s s') (a : Action) :
    (s'.actQuietly a).1 = (s.actQuietly a).1 := by
  cases a with
  | start | reset | verify | close | terminate | sendSignal => rfl
  | stop => exact congrArg some (hR.task hst).stop.1
  | sendBytes bytes => exact congrArg some ((hR.task hst).sendBytes bytes).1
  | sendFrame f => exact congrArg some ((hR.task hst).sendFrame f).1

theorem shutDown (hR : Simulation h h' past R) (hst : R s s') :
    (s'.shutDown h').1 = (s.shutDown h).1 ∧ R (s.shutDown h).2 (s'.shutDown h').2 := by
  have hsame := (hR.task hst).isOpen
  cases hopen : s.task.isOpen with
  | true =>
    rw [shutDown_of_isOpen h hopen, shutDown_of_isOpen h' (hsame.trans hopen)]
    exact ⟨hR.onClose hst, hR.shut hst hopen⟩
  | false =>
    rw [shutDown_of_not_isOpen h hopen, shutDown_of_not_isOpen h' (hsame.trans hopen)]
    exact ⟨rfl, hst⟩

theorem actBy (hR : Simulation h h' past R) {close : Session σ → Session σ}
    {close' : Session τ → Session τ} (hclose : ∀ {s s'}, R s s' → R (close s) (close' s'))
    (hst : R s s') (now : Instant) (a : Action) :
    (s'.actBy close' now a).1 = (s.actBy close now a).1 ∧
      R (s.actBy close now a).2 (s'.actBy close' now a).2 := by
  cases a with
  | verify | stop | sendSignal | sendBytes | sendFrame =>
    exact ⟨hR.outcome_actQuietly hst _, hR.actQuietly hst _⟩
  | close | terminate => exact ⟨rfl, hclose hst⟩
  | reset =>
    unfold Session.actBy
    dsimp only
    rw [hR.spares hst]
    cases s.spares with
    | zero => exact ⟨rfl, hst⟩
    | succ spares =>
      have hstock := hR.stock hst spares
      exact ⟨congrArg some (hR.task hstock).reset.1, hR.reset hstock⟩
  | start =>
    have houtcome : (s'.launch now).1 = (s.launch now).1 := ((hR.task hst).start now).1
    have hlaunch := hR.launch hst now
    unfold Session.actBy
    generalize s.launch now = out, s'.launch now = out' at houtcome hlaunch
    obtain ⟨outcome, t⟩ := out
    obtain ⟨outcome', t'⟩ := out'
    cases (houtcome : outcome' = outcome)
    cases outcome with
    | started | refused | overflow => exact ⟨rfl, hlaunch⟩
    | unconnected => exact ⟨rfl, hclose hlaunch⟩

theorem actOnClose (hR : Simulation h h' past R) {close : Session σ → Session σ}
    {close' : Session τ → Session τ} (hclose : ∀ {s s'}, R s s' → R (close s) (close' s'))
    (hst : R s s') (now : Instant) (a : Action) :
    R (s.actOnClose close now a) (s'.actOnClose close' now a) := by
  obtain ⟨hresult, hnext⟩ := hR.actBy hclose hst now a
  unfold Session.actOnClose
  dsimp only
  rw [(hR.task hst).isStranded, (hR.task hnext).isStranded, hresult]
  split_ifs
  · exact hst
  · exact hnext
  · exact hR.report hnext _

theorem closeWithin (hR : Simulation h h' past R) (hst : R s s') (now : Instant) (depth : Nat) :
    R (s.closeWithin h now depth) (s'.closeWithin h' now depth) := by
  induction depth generalizing s s' with
  | zero => exact hst
  | succ depth ih =>
    obtain ⟨hactions, hnext⟩ := hR.shutDown hst
    rw [Session.closeWithin, Session.closeWithin]
    dsimp only
    rw [hactions]
    generalize (s.shutDown h).1 = actions
    generalize (s.shutDown h).2 = s, (s'.shutDown h').2 = s' at hnext
    induction actions generalizing s s' with
    | nil => exact hnext
    | cons a actions ih' => exact ih' _ _ (hR.actOnClose ih hnext now a)

theorem close (hR : Simulation h h' past R) (hst : R s s') (now : Instant) :
    R (s.close h now) (s'.close h' now) := by
  have hphase : s'.task.phase = s.task.phase := (hR.task hst).same fun _ _ => rfl
  have hlives : s'.lives = s.lives := by rw [lives, lives, hphase, hR.spares hst]
  rw [Session.close, Session.close, hlives]
  exact hR.closeWithin hst now s.lives

theorem act (hR : Simulation h h' past R) (hst : R s s') (now : Instant) (a : Action) :
    (s'.act h' now a).1 = (s.act h now a).1 ∧ R (s.act h now a).2 (s'.act h' now a).2 :=
  hR.actBy (fun hst => hR.close hst now) hst now a

theorem start (hR : Simulation h h' past R) (hst : R s s') (now : Instant) :
    (s'.start h' now).1 = (s.start h now).1 ∧ R (s.start h now).2 (s'.start h' now).2 :=
  ⟨((hR.task hst).start now).1, (hR.act hst now .start).2⟩

theorem actAll (hR : Simulation h h' past R) (hst : R s s') (now : Instant)
    (actions : List Action) :
    (s'.actAll h' now actions).1 = (s.actAll h now actions).1 ∧
      R (s.actAll h now actions).2 (s'.actAll h' now actions).2 := by
  induction actions generalizing s s' with
  | nil => exact ⟨rfl, hst⟩
  | cons a actions ih =>
    obtain ⟨hresult, hnext⟩ := hR.act hst now a
    obtain ⟨hresults, hrest⟩ := ih hnext
    unfold Session.actAll
    dsimp only
    rw [(hR.task hnext).isStranded]
    split_ifs
    · exact ⟨rfl, hnext⟩
    · exact ⟨congrArg₂ List.cons hresult hresults, hrest⟩

theorem handle (hR : Simulation h h' past R) (hst : R s s') (now : Instant) (k : Nat)
    (frame : Bytes) :
    R (s.handle h now (past + k) frame).1 (s'.handle h' now k frame).1 ∧
      (s.handle h now (past + k) frame).2 = (s'.handle h' now k frame).2 := by
  have hsame := (hR.task hst).isOpen
  cases hopen : s.task.isOpen with
  | false =>
    simp only [Session.handle, hsame, hopen]
    exact ⟨hst, rfl⟩
  | true =>
    have hcurrent : (s'.resets == k) = (s.resets == past + k) := by
      rw [hR.resets hst, Bool.eq_iff_iff, beq_iff_eq, beq_iff_eq, Nat.add_left_cancel_iff]
    have hentered := hR.enter hst (s.resets == past + k) frame
    obtain ⟨hresults, hnext⟩ := hR.actAll hentered now (h.onFrame s.state s.task frame).2
    have hanswer := hR.onFrame hst frame
    rw [handle_of_isOpen hopen, handle_of_isOpen (hsame.trans hopen), hcurrent, hanswer]
    dsimp only
    rw [(hR.task hnext).isStranded, hresults]
    split_ifs
    · exact ⟨hnext, rfl⟩
    · exact ⟨hR.report hnext _, (hR.task hnext).isOpen.symm⟩

theorem deliver (hR : Simulation h h' past R) (hst : R s s') (now : Instant) (arrived : Bytes)
    (horizon : Horizon) :
    R (s.deliver h now arrived horizon) (s'.deliver h' now arrived horizon) := by
  unfold Session.deliver
  rw [(hR.task hst).loops, (hR.task hst).settings]
  cases s.task.loops with
  | none => exact hst
  | some loops =>
    have hframe (t : Session σ) (t' : Session τ) (frame : Bytes) (ht : R t t') :=
      hR.handle ht now s'.resets frame
    have hreceive := receive_alike s.task.settings.frameLimit hframe hst loops.inbound
      ⟨if arrived.isEmpty then [] else [.chunk arrived], horizon, 0⟩
    rw [← hR.resets hst] at hreceive
    dsimp only at hreceive ⊢
    generalize receive _ (Session.handle h now s.resets) s loops.inbound _ = out,
      receive _ (Session.handle h' now s'.resets) s' loops.inbound _ = out' at hreceive ⊢
    obtain ⟨hout, hbuffer, hending⟩ := hreceive
    rw [← hending, ← hbuffer]
    have hkept := hR.resets_iff hst hout
    split
    · simp only [hkept]
      split_ifs
      · exact hR.inbound hout _
      · exact hout
    · rw [(hR.task hout).isStranded]
      split_ifs
      · exact hout
      · exact hR.close hout now

theorem flush (hR : Simulation h h' past R) (hst : R s s') (now : Instant) (w : Writer) :
    R (s.flush h now w).1 (s'.flush h' now w).1 ∧ (s'.flush h' now w).2 = (s.flush h now w).2 := by
  obtain ⟨hending, -, hwriter⟩ := (hR.task hst).runSendLoop now w
  have hloops := (hR.task hst).loops
  have hwrote := hR.wrote hst now w
  cases hsome : s.task.loops.isSome with
  | false =>
    have hnone : s.task.loops = none := by simpa using hsome
    rw [flush_of_no_loops hnone, flush_of_no_loops (hloops.trans hnone)]
    exact ⟨hst, rfl⟩
  | true =>
    rw [flush_of_loops h now w hsome, flush_of_loops h' now w (hloops ▸ hsome), hending, hwriter]
    split_ifs
    · exact ⟨hR.close hwrote now, rfl⟩
    · exact ⟨hwrote, rfl⟩

end Simulation

end FrameLink.Session
