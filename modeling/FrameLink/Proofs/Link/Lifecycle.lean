import FrameLink.Proofs.Link.Incoming
import FrameLink.Rules

/-!
# The life of a task

A task goes round from unstarted over open to closed, and its handler is told of every close. A
handler that logs its calls shows what it is called for: frames only while the task is open, and one
close after each opening. The frames are those of the peer of this connection, but for those that a
receive loop goes on with behind a callback that has put the task on a new stream and started it.
-/

namespace FrameLink

def Phase.next : Phase → Phase
  | .unstarted => .opened
  | .opened => .closed
  | .closed => .unstarted

/-- One call of a handler, and the phase that it finds the task in. -/
inductive Call
  | frame (phase : Phase) (bytes : Bytes)
  | close (phase : Phase)
deriving DecidableEq, Repr

namespace Call

def Due : Call → Prop
  | .frame phase _ => phase = .opened
  | .close phase => phase = .closed

def isClose : Call → Bool
  | .frame _ _ => false
  | .close _ => true

def frame? : Call → Option Bytes
  | .frame _ bytes => some bytes
  | .close _ => none

end Call

namespace Handler

/-- The same handler, with a log of its calls. -/
def logged {σ : Type} (h : Handler σ) : Handler (σ × List Call) where
  onFrame s task frame :=
    let (state, actions) := h.onFrame s.1 task frame
    ((state, s.2 ++ [.frame task.phase frame]), actions)
  onClose s task :=
    let (state, actions) := h.onClose s.1 task
    ((state, s.2 ++ [.close task.phase]), actions)

end Handler

namespace Session

variable {σ : Type} {h : Handler σ} {now : Instant} {s s' : Session σ}

/-- What one step does to the life of a task. -/
structure Lives (s s' : Session σ) : Prop where
  phase : s'.task.phase = s.task.phase ∨ s'.task.phase = s.task.phase.next
  openings : s'.openings = s.openings +
    if s.task.phase = .unstarted ∧ s'.task.phase = .opened then 1 else 0
  closes : s'.closes = s.closes +
    if s.task.phase = .opened ∧ s'.task.phase = .closed then 1 else 0
  resets : s'.resets = s.resets +
    if s.task.phase = .closed ∧ s'.task.phase = .unstarted then 1 else 0

theorem GoesOn.lives (hgoes : s.GoesOn s') : s.Lives s' := by
  rcases hgoes.phase with ⟨hphase, _, hcloses⟩ | ⟨hopened, hclosed, _, hcloses⟩
  · refine ⟨.inl hphase, ?_, ?_, ?_⟩ <;> rw [hphase] <;>
      cases s.task.phase <;> simp [hgoes.openings, hcloses, hgoes.resets]
  · refine ⟨.inr ?_, ?_, ?_, ?_⟩ <;>
      simp [hopened, hclosed, Phase.next, hgoes.openings, hcloses, hgoes.resets]

theorem Step.lives (hstep : Step h now s s') : s.Lives s' := by
  rcases hstep.goesOn_or with hgoes | ⟨hunstarted, rfl⟩ | ⟨hclosed, rfl⟩
  · exact hgoes.lives
  · obtain ⟨hopened, hopenings, hcloses, hresets, _⟩ := phase_launch now hunstarted
    refine ⟨.inr ?_, ?_, ?_, ?_⟩ <;>
      simp [hunstarted, hopened, Phase.next, hopenings, hcloses, hresets]
  · refine ⟨.inr ?_, ?_, ?_, ?_⟩ <;> simp [Session.renew, hclosed, Phase.next]

theorem Steps.lives (hsteps : Steps h now s s') : Relation.ReflTransGen Lives s s' :=
  Relation.ReflTransGen.mono (fun _ _ => Step.lives) _ _ hsteps

/-- Every close but that of a closed task was followed by one reset. -/
def Rounded (s : Session σ) : Prop :=
  s.resets + (if s.task.phase = .closed then 1 else 0) = s.closes

theorem Rounded.lives (hs : s.Rounded) (hlives : s.Lives s') : s'.Rounded := by
  have hcloses := hlives.closes
  have hresets := hlives.resets
  unfold Rounded at hs ⊢
  rcases hlives.phase with hphase | hphase <;> rw [hphase] at hcloses hresets ⊢ <;>
    cases hbefore : s.task.phase <;> simp [hbefore, Phase.next] at hs hcloses hresets ⊢ <;> omega

theorem Rounded.transGen (hs : s.Rounded) (hlives : Relation.ReflTransGen Lives s s') :
    s'.Rounded := by
  induction hlives with
  | refl => exact hs
  | tail _ hlives ih => exact ih.lives hlives

/-! ## Starts -/

/-- All starts have succeeded, as long as every deadline was an instant. -/
def Started (now : Instant) (s : Session σ) : Prop :=
  s.starts ≤ s.openings ∧
    (now + s.task.settings.verifyTimeout < timeBound → s.starts = s.openings)

theorem Started.steps (hs : s.Started now) (hplaced : s.Placed) (hsteps : Steps h now s s') :
    s'.Started now := by
  induction hsteps with
  | refl => exact hs
  | @tail t t' hsteps hstep ih =>
    have ht := hplaced.steps hsteps
    rcases hstep.goesOn_or with hgoes | ⟨hunstarted, rfl⟩ | ⟨_, rfl⟩
    · rw [Started, hgoes.starts, hgoes.openings, hgoes.settings]
      exact ih
    · have hlaunches := launches now t
      generalize (t.launch now).1 = outcome, (t.launch now).2 = t' at hlaunches
      cases hlaunches with
      | refused => exact ih
      | unconnected _ hstream =>
        rw [ht.connected hunstarted] at hstream
        cases hstream
      | started => exact ⟨Nat.succ_le_succ ih.1, fun htime => congrArg (· + 1) (ih.2 htime)⟩
      | overflow _ hlate =>
        exact ⟨Nat.le_succ_of_le ih.1, fun htime => absurd htime (Nat.not_lt.mpr hlate)⟩
    · exact ih

theorem Started.later (hs : s.Started now) {next : Instant} (hnext : now ≤ next) :
    s.Started next :=
  ⟨hs.1, fun htime => hs.2 ((Nat.add_le_add_right hnext _).trans_lt htime)⟩

/-! ## Calls -/

/-- What the log of a handler tells of its session. -/
structure Logged (s : Session (σ × List Call)) : Prop where
  due : ∀ c ∈ s.state.2, c.Due
  closes : s.state.2.countP Call.isClose = s.closes
  frames : s.ledger.strays ++ s.ledger.frames <:+ s.state.2.filterMap Call.frame?

section

variable {s s' : Session (σ × List Call)}

theorem Logged.shut (hs : s.Logged) : (s.shut h.logged).Logged where
  due := by
    intro c hc
    rcases List.mem_append.mp hc with hc | hc
    · exact hs.due c hc
    · rw [List.mem_singleton.mp hc]
      rfl
  closes := by
    have hstate : (s.shut h.logged).state.2 = s.state.2 ++ [.close .closed] := rfl
    rw [hstate, List.countP_append, hs.closes]
    rfl
  frames := by
    have hstate : (s.shut h.logged).state.2 = s.state.2 ++ [.close .closed] := rfl
    rw [hstate, List.filterMap_append]
    exact (List.append_nil _).symm ▸ hs.frames

theorem Logged.enter (hs : s.Logged) (hopen : s.task.isOpen = true) (current : Bool)
    (hfresh : current = false → s.Untouched) (frame : Bytes) :
    (s.enter h.logged current frame).Logged := by
  have hstate : (s.enter h.logged current frame).state.2 =
    s.state.2 ++ [.frame s.task.phase frame] := rfl
  have hframes : (s.enter h.logged current frame).ledger.strays ++
      (s.enter h.logged current frame).ledger.frames =
        s.ledger.strays ++ s.ledger.frames ++ [frame] := by
    cases current with
    | true => exact (List.append_assoc _ _ _).symm
    | false =>
      -- the loop of the new connection has not handed over anything yet
      obtain ⟨hnone, _⟩ := (hfresh rfl).ledger (by rw [Task.isOpen_iff.mp hopen]; exact nofun)
      simp [Session.enter, Ledger.handle, hnone]
  refine ⟨?_, ?_, ?_⟩
  · rw [hstate]
    intro c hc
    rcases List.mem_append.mp hc with hc | hc
    · exact hs.due c hc
    · rw [List.mem_singleton.mp hc]
      exact Task.isOpen_iff.mp hopen
  · rw [hstate, List.countP_append, hs.closes]
    rfl
  · rw [hstate, List.filterMap_append, hframes]
    obtain ⟨earlier, hearlier⟩ := hs.frames
    exact ⟨earlier, by rw [← hearlier, ← List.append_assoc]; rfl⟩

theorem Logged.step (hs : s.Logged) (hstep : Step h.logged now s s') : s'.Logged := by
  cases hstep with
  | effect heffect =>
    cases heffect with
    | verify | stop | signal | push | report | discard | renew =>
      exact ⟨hs.due, hs.closes, hs.frames⟩
    | shut => exact hs.shut
    | launch hunstarted =>
      have hlaunches := launches now s
      generalize (s.launch now).1 = outcome, (s.launch now).2 = s' at hlaunches
      cases hlaunches with
      | refused => exact hs
      | unconnected | started | overflow => exact ⟨hs.due, hs.closes, List.nil_suffix⟩
  | enter frame hopen => exact hs.enter hopen true nofun frame
  | stray frame hopen hfresh => exact hs.enter hopen false (fun _ => hfresh) frame
  | inbound | write => exact ⟨hs.due, hs.closes, hs.frames⟩
  | exit => exact Logged.shut ⟨hs.due, hs.closes, hs.frames⟩

theorem Logged.steps (hs : s.Logged) (hsteps : Steps h.logged now s s') : s'.Logged := by
  induction hsteps with
  | refl => exact hs
  | tail _ hstep ih => exact ih.step hstep

end

/-! ## Frames of earlier connections -/

theorem Effects.strays (heffects : Effects h now s s') (hs : s.ledger.strays = []) :
    s'.ledger.strays = [] :=
  heffects.ledger_keeps (P := fun l => l.strays = []) rfl (fun _ _ hl => hl) hs

theorem strays_flush {w : Writer} (hs : s.ledger.strays = []) :
    (s.flush h now w).1.ledger.strays = [] := by
  cases hloops : s.task.loops.isSome with
  | false =>
    rw [flush_of_no_loops (by simpa using hloops)]
    exact hs
  | true =>
    have hwrote : (s.wrote now w).ledger.strays = [] := hs
    rw [flush_of_loops h now w hloops]
    split_ifs
    · exact Effects.strays (effects_close _) hwrote
    · exact hwrote

/-! ## Refusals -/

theorem act_refused (h : Handler σ) (now : Instant) (hphase : s.task.phase ≠ .opened) :
    (s.act h now .stop).1 = some false ∧
      (∀ bytes, (s.act h now (.sendBytes bytes)).1 = some false) ∧
      ∀ f, (s.act h now (.sendFrame f)).1 = some false := by
  have hopen := Task.isOpen_eq_false_iff.mpr hphase
  refine ⟨?_, fun bytes => ?_, fun f => ?_⟩
  · rcases s.task.stop_cases with ⟨hopen', _⟩ | hstop
    · rw [hopen] at hopen'
      cases hopen'
    · simp [act, actBy, actQuietly, hstop]
  · simp [act, actBy, actQuietly, Task.sendBytes_of_not_isOpen hopen]
  · simp [act, actBy, actQuietly, Task.sendFrame_of_not_isOpen hopen]

/-- A start that answers `false` changes nothing, and a reset that does nothing but the stream that
it was given. -/
theorem act_in_vain (h : Handler σ) (now : Instant) (hs : s.Placed) :
    ((s.act h now .start).1 = some false → (s.act h now .start).2 = s) ∧
      ((s.act h now .reset).1 = some false →
        (s.act h now .reset).2 = { s with spares := s.spares - 1 }) := by
  constructor
  · intro hfalse
    have hlaunches := launches now s
    unfold act actBy at hfalse ⊢
    generalize s.launch now = out at hlaunches hfalse ⊢
    obtain ⟨outcome, t⟩ := out
    cases hlaunches with
    | refused => rfl
    | unconnected hphase hstream =>
      rw [hs.connected hphase] at hstream
      cases hstream
    | started | overflow => cases hfalse
  · intro hfalse
    unfold act actBy at hfalse ⊢
    dsimp only at hfalse ⊢
    cases hspares : s.spares with
    | zero =>
      simp only [hspares] at hfalse
      cases hfalse
    | succ spares =>
      simp only [hspares] at hfalse ⊢
      rcases reset_cases { s with spares } with ⟨_, _, hreset⟩ | hreset
      · simp only [hreset] at hfalse
        cases hfalse
      · rw [hreset]
        rfl

end Session

namespace Link.Run

variable {σ : Type} {h : Handler σ}

theorem started_move {r : Run σ} (hr : r.link.session.Started r.now)
    (hs : r.link.session.Placed) (m : Move) :
    (r.move h m).2.link.session.Started (r.move h m).2.now := by
  obtain ⟨spares, hsteps⟩ := steps_move (h := h) hs m
  have hstock : Session.Started r.now { r.link.session with spares } := hr
  exact (hstock.steps (hs.stock spares) hsteps).later (now_le_move r m)

theorem move_in_vain {r : Run σ} (hs : r.link.session.Placed) {m : Move}
    (hm : m = .act .start ∨ m = .act .reset) (hfalse : (r.move h m).1 = .returned false) :
    (r.move h m).2 = r := by
  rcases hm with rfl | rfl
  · simp only [move, Link.act, Link.start] at hfalse ⊢
    have hsession : (r.link.session.start h r.now).2 = r.link.session := by
      refine (Session.act_in_vain h r.now hs).1 ?_
      have houtcome : (r.link.session.launch r.now).1 = (r.link.session.start h r.now).1 := rfl
      unfold Session.act Session.actBy
      generalize r.link.session.launch r.now = out at houtcome ⊢
      generalize r.link.session.start h r.now = out' at houtcome hfalse
      obtain ⟨outcome, t⟩ := out
      obtain ⟨outcome', t'⟩ := out'
      cases (houtcome : outcome = outcome')
      cases outcome with
      | started | overflow => cases hfalse
      | refused | unconnected => rfl
    rw [hsession, after_of_resets rfl]
  · rcases r.link.session.reset_cases with ⟨_, _, hreset⟩ | hreset
    · simp only [move, Link.act, Link.reset, hreset] at hfalse
      cases hfalse
    · simp only [move, Link.act, Link.reset, hreset]
      rw [after_of_resets rfl]

theorem strays_move {r : Run σ} (hs : r.link.session.Placed)
    (hspares : r.link.session.spares = 0) (hstrays : r.link.session.ledger.strays = [])
    {m : Move} (hm : m ≠ .supply) :
    (r.move h m).2.link.session.spares = 0 ∧ (r.move h m).2.link.session.ledger.strays = [] := by
  cases m with
  | act a =>
    have hact := Session.effects_act h r.now r.link.session a
    have hkept := (hact.steps.resets_of_no_spares hspares).2
    cases a with
    | reset =>
      rcases r.link.session.reset_cases with ⟨_, _, hreset⟩ | hreset
      · simp only [move, Link.act, Link.reset, hreset]
        exact ⟨hspares, hstrays⟩
      · simp only [move, Link.act, Link.reset, hreset]
        exact ⟨hspares, hstrays⟩
    | start | verify | close | terminate | stop | sendSignal | sendBytes | sendFrame =>
      exact ⟨hkept, hact.strays hstrays⟩
  | turn =>
    have hsteps := steps_turn (h := h) hs r.now
    exact ⟨(hsteps.resets_of_no_spares hspares).2, Session.strays_flush hstrays⟩
  | deliver =>
    have hsteps := steps_deliver (h := h) hs r.now
    obtain ⟨hresets, hkept⟩ := hsteps.resets_of_no_spares hspares
    refine ⟨hkept, ?_⟩
    simp only [move]
    rw [session_deliver] at hresets ⊢
    by_cases hphase : r.link.session.task.phase = .opened
    · rw [if_pos hphase] at hresets ⊢
      obtain ⟨frames, accepted, hledger⟩ := Session.ledger_deliver hs hresets
      rw [hledger]
      exact hstrays
    · rw [if_neg hphase]
      exact hstrays
  | peer | wait | read => exact ⟨hspares, hstrays⟩
  | supply => exact absurd rfl hm

/-- Frames of an earlier connection come only to a task whose callbacks can put it on a new
stream. -/
theorem strays_moves (h : Handler σ) (state : σ) (settings : Task.Settings) (list : List Move)
    (hlist : .supply ∉ list) :
    ((init state settings).moves h list).link.session.ledger.strays = [] := by
  suffices hboth : ((init state settings).moves h list).link.session.spares = 0 ∧
      ((init state settings).moves h list).link.session.ledger.strays = [] from hboth.2
  induction list using List.reverseRecOn with
  | nil => exact ⟨rfl, rfl⟩
  | append_singleton list m ih =>
    rw [List.mem_append, List.mem_singleton, not_or] at hlist
    obtain ⟨hspares, hstrays⟩ := ih hlist.1
    rw [moves_concat]
    exact strays_move (sound_moves h state settings list).placed hspares hstrays (Ne.symm hlist.2)

theorem lives_move {r : Run σ} (hs : r.link.session.Placed) (m : Move) :
    Relation.ReflTransGen Session.Lives r.link.session (r.move h m).2.link.session := by
  obtain ⟨spares, hsteps⟩ := steps_move (h := h) hs m
  have hstock : r.link.session.Lives { r.link.session with spares } := by
    refine ⟨.inl rfl, ?_, ?_, ?_⟩ <;> cases r.link.session.task.phase <;> rfl
  exact .head hstock hsteps.lives

theorem rounded_moves (h : Handler σ) (state : σ) (settings : Task.Settings)
    (list : List Move) : ((init state settings).moves h list).link.session.Rounded := by
  induction list using List.reverseRecOn with
  | nil => rfl
  | append_singleton list m ih =>
    rw [moves_concat]
    exact ih.transGen (lives_move (sound_moves h state settings list).placed m)

/-- The whole life of a task over every run, with the actions of callbacks inside callbacks. Every
move takes it along its three phases, and its handler is told of every close. Every opening but that
of an open task was followed by one close. All starts have succeeded, as long as every deadline was
an instant. The frames of a connection are the first ones of the parse of what its peer has sent;
only behind a callback that has put the task on a new stream others come before them. -/
theorem lives_moves (h : Handler σ) (state : σ) (settings : Task.Settings) (list : List Move)
    (m : Move) :
    let r := (init state settings).moves h list
    let s := r.link.session
    Relation.ReflTransGen Session.Lives s (r.move h m).2.link.session ∧
      s.closes + (if s.task.phase = .opened then 1 else 0) = s.openings ∧
      s.Rounded ∧ s.Started r.now ∧
      (s.task.phase ≠ .unstarted →
        s.ledger.frames <+: (parse s.task.settings.frameLimit r.link.peer.said).frames) ∧
      (.supply ∉ list → s.ledger.strays = []) ∧
      ((m = .act .start ∨ m = .act .reset) → (r.move h m).1 = .returned false →
        (r.move h m).2 = r) ∧
      (∀ (t : Session σ) (now : Instant), t.task.phase ≠ .opened →
        (t.act h now .stop).1 = some false ∧
          (∀ bytes, (t.act h now (.sendBytes bytes)).1 = some false) ∧
          ∀ f, (t.act h now (.sendFrame f)).1 = some false) ∧
      (∀ (t : Session σ) (now : Instant), Session.Steps h r.now s t →
        ((t.act h now .start).1 = some false → (t.act h now .start).2 = t) ∧
          ((t.act h now .reset).1 = some false →
            (t.act h now .reset).2 = { t with spares := t.spares - 1 })) ∧
      ((init (state, []) settings).moves h.logged list).link.session.Logged := by
  intro r s
  have hs := (sound_moves h state settings list).placed
  obtain ⟨-, hlogged⟩ := session_moves (h := h.logged) (r := init (state, []) settings)
    (P := Session.Logged) (fun _ _ _ hs => hs.steps)
    (fun _ _ hs => ⟨hs.due, hs.closes, hs.frames⟩) (Session.sound_ofTask _ settings)
    ⟨nofun, rfl, List.nil_suffix⟩ list
  have hstarted : r.link.session.Placed ∧ s.Started r.now :=
    moves_keep (P := fun r => r.link.session.Placed ∧ r.link.session.Started r.now)
      (fun r m hr => ⟨?_, started_move hr.2 hr.1 m⟩)
      ⟨(Session.sound_ofTask state settings).placed, Nat.le_refl _, fun _ => rfl⟩ list
  · exact ⟨lives_move hs m, hs.balance, rounded_moves h state settings list, hstarted.2,
      frames_prefix_parse h state settings list, strays_moves h state settings list,
      move_in_vain hs, fun t now => Session.act_refused h now,
      fun t now hsteps => Session.act_in_vain h now (hs.steps hsteps), hlogged⟩
  · obtain ⟨spares, hsteps⟩ := steps_move (h := h) hr.1 m
    exact (hr.1.stock spares).steps hsteps

/-- The callback for the first frame closes the task, puts it on a new stream and starts it. The
second frame, of the peer that is gone, is handled on the new connection. A start whose deadline is
no instant opens the task, too, and does not succeed. -/
theorem stray_frame :
    let h := (Rules.mk [⟨1, [.close, .reset, .start]⟩] []).handler.logged
    let first := Frame.toBytes ⟨1, []⟩
    let second := Frame.toBytes ⟨2, []⟩
    let r := (init ((), []) .default).moves h
      [.act .start, .act .verify, .supply, .peer (.send (first ++ second)), .deliver]
    let late := (init ((), []) ⟨defaultFrameLimit, timeBound, 0⟩).moves h [.act .start]
    (r.link.session.state.2 = [.frame .opened first, .close .closed, .frame .opened second] ∧
      r.link.session.task.phase = .opened ∧ r.link.session.resets = 1 ∧
      r.link.session.ledger.strays = [second] ∧
      ¬r.link.session.ledger.strays ++ r.link.session.ledger.frames <+:
        (parse defaultFrameLimit r.link.peer.said).frames) ∧
      late.link.session.task.phase = .opened ∧
        late.link.session.closes + 1 ≠ late.link.session.starts := by
  decide +kernel

end Link.Run

end FrameLink
