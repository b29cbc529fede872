import FrameLink.Session.Loops
import FrameLink.Proofs.Task
import Mathlib.Logic.Relation

/-!
# The steps of a session

A session changes by a few kinds of steps only. Effects are what actions do, also those of callbacks
and of callbacks inside callbacks; the other steps are those of the loops. What holds before and
after each step holds through every operation. As long as a task stays on its stream, its session
goes on from where it was. A callback that puts the task on a new stream leaves it untouched by the
loops until they get their next turn.
-/

namespace FrameLink.Session

variable {σ : Type}

def push (s : Session σ) (bytes : Bytes) : Session σ :=
  { s with task := s.task.push bytes, ledger := s.ledger.offer true bytes }

/-- Closes an open task, without the actions that the handler answers. -/
def shut (h : Handler σ) (s : Session σ) : Session σ :=
  { s with
    state := (h.onClose s.state s.task.shut).1, task := s.task.shut, closes := s.closes + 1 }

/-- Puts a closed task on a stream of the reserve. -/
def renew (s : Session σ) : Session σ :=
  { s with
    task := { s.task with
      phase := .unstarted, stream := true, queue := s.task.queue.reset
      sendSignal := false, stopSignal := false }
    resets := s.resets + 1, verifications := 0, spares := s.spares - 1 }

/-- Hands over a frame, without the actions that the handler answers. -/
def enter (h : Handler σ) (s : Session σ) (current : Bool) (frame : Bytes) : Session σ :=
  { s with
    state := (h.onFrame s.state s.task frame).1, ledger := s.ledger.handle current frame }

/-- Runs the send loop, without closing the task where it ends. -/
def wrote (now : Instant) (w : Writer) (s : Session σ) : Session σ :=
  let (ending, task, w) := s.task.runSendLoop now w
  { s with task, ledger := s.ledger.write w.taken ending }

inductive Effect (h : Handler σ) (now : Instant) (s : Session σ) : Session σ → Prop
  | verify : Effect h now s
      { s with task := s.task.verify, verifications := s.verifications + 1 }
  | stop (hopen : s.task.isOpen = true) :
      Effect h now s { s with task := { s.task with stopSignal := true } }
  | signal : Effect h now s { s with task := s.task.signalSend }
  | push (bytes : Bytes) (hopen : s.task.isOpen = true) : Effect h now s (s.push bytes)
  | report (entry : Entry) : Effect h now s { s with entries := entry :: s.entries }
  | shut (hopen : s.task.isOpen = true) : Effect h now s (s.shut h)
  | launch (hunstarted : s.task.phase = .unstarted) : Effect h now s (s.launch now).2
  | discard : Effect h now s { s with spares := s.spares - 1 }
  | renew (hspares : 0 < s.spares) (hclosed : s.task.phase = .closed)
      (hverified : s.task.verified = true) : Effect h now s s.renew

/-- No loop has touched a connection that the task was put on since it was last opened. -/
structure Untouched (s : Session σ) : Prop where
  ledger : s.task.phase ≠ .unstarted → s.ledger.frames = [] ∧ s.ledger.written = []
  loops : ∀ loops, s.task.loops = some loops → loops.inbound.unread = []

inductive Step (h : Handler σ) (now : Instant) (s : Session σ) : Session σ → Prop
  | effect {s' : Session σ} (heffect : Effect h now s s') : Step h now s s'
  | enter (frame : Bytes) (hopen : s.task.isOpen = true) : Step h now s (s.enter h true frame)
  | stray (frame : Bytes) (hopen : s.task.isOpen = true) (hfresh : s.Untouched) :
      Step h now s (s.enter h false frame)
  | inbound (b : Buffer) : Step h now s { s with task := s.task.setInbound b }
  | write {w : Writer} (hfresh : w.Fresh) (hloops : s.task.loops.isSome = true)
      (hopen : s.task.isOpen = true) (hgoes : (s.task.runSendLoop now w).1 = none) :
      Step h now s (s.wrote now w)
  | exit {w : Writer} {ending : Task.Exit} (hfresh : w.Fresh)
      (hloops : s.task.loops.isSome = true) (hopen : s.task.isOpen = true)
      (hends : (s.task.runSendLoop now w).1 = some ending) : Step h now s ((s.wrote now w).shut h)

abbrev Effects (h : Handler σ) (now : Instant) : Session σ → Session σ → Prop :=
  Relation.ReflTransGen (Effect h now)

abbrev Steps (h : Handler σ) (now : Instant) : Session σ → Session σ → Prop :=
  Relation.ReflTransGen (Step h now)

variable {h : Handler σ} {now : Instant} {s s' t : Session σ}

theorem Effects.steps (heffects : Effects h now s s') : Steps h now s s' :=
  Relation.ReflTransGen.mono (fun _ _ heffect => .effect heffect) _ _ heffects

/-! ## Openings -/

inductive Launches (now : Instant) (s : Session σ) : Task.Start → Session σ → Prop
  | refused (hphase : s.task.phase ≠ .unstarted) : Launches now s .refused s
  | unconnected (hphase : s.task.phase = .unstarted) (hstream : s.task.stream = false) :
      Launches now s .unconnected { s with
        task := { s.task with phase := .opened }, openings := s.openings + 1, ledger := .blank }
  | started (hphase : s.task.phase = .unstarted)
      (htime : now + s.task.settings.verifyTimeout < timeBound) :
      Launches now s .started { s with
        task := { s.task with
          phase := .opened, stream := false
          loops := some
            { inbound := .withCapacity s.task.settings.bufferSize
              scratch := .withCapacity s.task.settings.bufferSize
              writing := false
              deadline := now + s.task.settings.verifyTimeout
              armed := true } }
        openings := s.openings + 1, starts := s.starts + 1, ledger := .blank }
  | overflow (hphase : s.task.phase = .unstarted)
      (htime : timeBound ≤ now + s.task.settings.verifyTimeout) :
      Launches now s .overflow { s with
        task := { s.task with phase := .opened, stream := false }
        openings := s.openings + 1, ledger := .blank }

theorem launches (now : Instant) (s : Session σ) :
    Launches now s (s.launch now).1 (s.launch now).2 := by
  unfold launch Task.start
  split_ifs with hphase hstream htime
  · exact .refused hphase
  · exact .overflow (not_not.mp hphase) htime
  · exact .started (not_not.mp hphase) (not_le.mp htime)
  · exact .unconnected (not_not.mp hphase) (by simpa using hstream)

theorem phase_launch (now : Instant) (hunstarted : s.task.phase = .unstarted) :
    (s.launch now).2.task.phase = .opened ∧ (s.launch now).2.openings = s.openings + 1 ∧
      (s.launch now).2.closes = s.closes ∧ (s.launch now).2.resets = s.resets ∧
      (s.launch now).2.spares = s.spares ∧ (s.launch now).2.ledger = .blank := by
  have hlaunches := launches now s
  generalize (s.launch now).1 = outcome, (s.launch now).2 = s' at hlaunches
  cases hlaunches with
  | refused hphase => exact absurd hunstarted hphase
  | unconnected | started | overflow => exact ⟨rfl, rfl, rfl, rfl, rfl, rfl⟩

/-! ## Phases -/

/-- A session that goes on from another one is in the same phase, or was closed, once. -/
structure GoesOn (s s' : Session σ) : Prop where
  openings : s'.openings = s.openings
  starts : s'.starts = s.starts
  resets : s'.resets = s.resets
  settings : s'.task.settings = s.task.settings
  stream : s'.task.stream = s.task.stream
  phase : (s'.task.phase = s.task.phase ∧ s'.task.loops.isSome = s.task.loops.isSome ∧
      s'.closes = s.closes) ∨
    (s.task.phase = .opened ∧ s'.task.phase = .closed ∧ s'.task.loops.isSome = false ∧
      s'.closes = s.closes + 1)

theorem GoesOn.refl (s : Session σ) : s.GoesOn s :=
  ⟨rfl, rfl, rfl, rfl, rfl, .inl ⟨rfl, rfl, rfl⟩⟩

theorem GoesOn.of_stock {spares : Nat} (hgoes : GoesOn { s with spares } s') : s.GoesOn s' :=
  ⟨hgoes.openings, hgoes.starts, hgoes.resets, hgoes.settings, hgoes.stream, hgoes.phase⟩

theorem GoesOn.trans (hfirst : s.GoesOn s') (hsecond : s'.GoesOn t) : s.GoesOn t where
  openings := hsecond.openings.trans hfirst.openings
  starts := hsecond.starts.trans hfirst.starts
  resets := hsecond.resets.trans hfirst.resets
  settings := hsecond.settings.trans hfirst.settings
  stream := hsecond.stream.trans hfirst.stream
  phase := by
    rcases hfirst.phase with ⟨hphase, hloops, hcloses⟩ | ⟨hopened, hclosed, hloops, hcloses⟩
    · rw [← hphase, ← hloops, ← hcloses]
      exact hsecond.phase
    · rcases hsecond.phase with ⟨hphase', hloops', hcloses'⟩ | ⟨hopened', _⟩
      · exact .inr ⟨hopened, hphase'.trans hclosed, hloops'.trans hloops, hcloses'.trans hcloses⟩
      · rw [hclosed] at hopened'
        cases hopened'

theorem GoesOn.not_isOpen (hgoes : s.GoesOn s') (hopen : s.task.isOpen = false) :
    s'.task.isOpen = false := by
  rw [Task.isOpen_eq_false_iff] at hopen ⊢
  rcases hgoes.phase with ⟨hphase, _⟩ | ⟨hopened, _⟩
  · rwa [hphase]
  · exact absurd hopened hopen

theorem GoesOn.unstarted_iff (hgoes : s.GoesOn s') :
    s'.task.phase = .unstarted ↔ s.task.phase = .unstarted := by
  rcases hgoes.phase with ⟨hphase, _⟩ | ⟨hopened, hclosed, _⟩
  · rw [hphase]
  · rw [hopened, hclosed]
    exact ⟨nofun, nofun⟩

theorem GoesOn.closed (hgoes : s.GoesOn s') (hclosed : s.task.phase = .closed) :
    s'.task.phase = .closed := by
  rcases hgoes.phase with ⟨hphase, _⟩ | ⟨_, hclosed', _⟩
  · exact hphase.trans hclosed
  · exact hclosed'

/-- How sessions can follow one another: the first one goes on, was opened, or was put on a new
stream. -/
inductive Follows (s s' : Session σ) : Prop
  | goesOn (hgoes : s.GoesOn s')
  | opened (hunstarted : s.task.phase = .unstarted) (hopenings : s.openings < s'.openings)
      (hresets : s'.resets = s.resets)
  | renewed (hresets : s.resets < s'.resets) (hopenings : s.openings ≤ s'.openings)

theorem Follows.openings (hfollows : s.Follows s') : s.openings ≤ s'.openings := by
  cases hfollows with
  | goesOn hgoes => exact hgoes.openings.ge
  | opened _ hopenings => exact hopenings.le
  | renewed _ hopenings => exact hopenings

theorem Follows.resets (hfollows : s.Follows s') : s.resets ≤ s'.resets := by
  cases hfollows with
  | goesOn hgoes => exact hgoes.resets.ge
  | opened _ _ hresets => exact hresets.ge
  | renewed hresets => exact hresets.le

theorem Follows.trans (hfirst : s.Follows s') (hsecond : s'.Follows t) : s.Follows t := by
  have hopenings := hfirst.openings.trans hsecond.openings
  cases hsecond with
  | goesOn hgoes' =>
    cases hfirst with
    | goesOn hgoes => exact .goesOn (hgoes.trans hgoes')
    | opened hunstarted hless hresets =>
      exact .opened hunstarted (hless.trans_eq hgoes'.openings.symm) (hgoes'.resets.trans hresets)
    | renewed hresets => exact .renewed (hresets.trans_eq hgoes'.resets.symm) hopenings
  | opened hunstarted' hless' hresets' =>
    cases hfirst with
    | goesOn hgoes =>
      exact .opened (hgoes.unstarted_iff.mp hunstarted') (hgoes.openings.symm.trans_lt hless')
        (hresets'.trans hgoes.resets)
    | opened hunstarted hless hresets =>
      exact .opened hunstarted (hless.trans hless') (hresets'.trans hresets)
    | renewed hresets => exact .renewed (hresets.trans_eq hresets'.symm) hopenings
  | renewed hresets' => exact .renewed (hfirst.resets.trans_lt hresets') hopenings

theorem Follows.of_stock {spares : Nat} (hfollows : Follows { s with spares } s') :
    s.Follows s' := by
  cases hfollows with
  | goesOn hgoes =>
    exact .goesOn hgoes.of_stock
  | opened hunstarted hless hresets => exact .opened hunstarted hless hresets
  | renewed hresets hopenings => exact .renewed hresets hopenings

/-- A task that is not unstarted is not opened before it was put on a new stream. -/
theorem Follows.goesOn_of_resets (hfollows : s.Follows s') (hphase : s.task.phase ≠ .unstarted)
    (hresets : s'.resets = s.resets) : s.GoesOn s' := by
  cases hfollows with
  | goesOn hgoes => exact hgoes
  | opened hunstarted => exact absurd hunstarted hphase
  | renewed hless => exact absurd hresets hless.ne'

theorem Follows.goesOn_of_openings (hfollows : s.Follows s') (hopenings : s'.openings = s.openings)
    (hresets : s'.resets = s.resets) : s.GoesOn s' := by
  cases hfollows with
  | goesOn hgoes => exact hgoes
  | opened _ hless => exact absurd hopenings hless.ne'
  | renewed hless => exact absurd hresets hless.ne'

theorem goesOn_shut (hopen : s.task.isOpen = true) : s.GoesOn (s.shut h) :=
  ⟨rfl, rfl, rfl, rfl, rfl, .inr ⟨Task.isOpen_iff.mp hopen, rfl, rfl, rfl⟩⟩

theorem goesOn_wrote (now : Instant) (w : Writer) (s : Session σ) : s.GoesOn (s.wrote now w) := by
  have hran := Task.ran_runSendLoop now w s.task
  exact ⟨rfl, rfl, rfl, hran.settings, hran.stream, .inl ⟨hran.phase, hran.loops, rfl⟩⟩

theorem isOpen_wrote (now : Instant) (w : Writer) (s : Session σ) :
    (s.wrote now w).task.isOpen = s.task.isOpen :=
  congrArg (· == Phase.opened) (Task.ran_runSendLoop now w s.task).phase

theorem Step.goesOn_or (hstep : Step h now s s') :
    s.GoesOn s' ∨ (s.task.phase = .unstarted ∧ s' = (s.launch now).2) ∨
      (s.task.phase = .closed ∧ s' = s.renew) := by
  cases hstep with
  | effect heffect =>
    cases heffect with
    | verify | stop | signal | push | report | discard =>
      exact .inl ⟨rfl, rfl, rfl, rfl, rfl, .inl ⟨rfl, rfl, rfl⟩⟩
    | shut hopen => exact .inl (goesOn_shut hopen)
    | launch hunstarted => exact .inr (.inl ⟨hunstarted, rfl⟩)
    | renew _ hclosed => exact .inr (.inr ⟨hclosed, rfl⟩)
  | enter | stray => exact .inl ⟨rfl, rfl, rfl, rfl, rfl, .inl ⟨rfl, rfl, rfl⟩⟩
  | inbound => exact .inl ⟨rfl, rfl, rfl, rfl, rfl, .inl ⟨rfl, Option.isSome_map .., rfl⟩⟩
  | @write w => exact .inl (goesOn_wrote now w s)
  | @exit w _ _ _ hopen =>
    have hstill := (isOpen_wrote now w s).trans hopen
    exact .inl ((goesOn_wrote now w s).trans (goesOn_shut hstill))

theorem Step.follows (hstep : Step h now s s') : s.Follows s' := by
  rcases hstep.goesOn_or with hgoes | ⟨hunstarted, rfl⟩ | ⟨_, rfl⟩
  · exact .goesOn hgoes
  · obtain ⟨_, hopenings, _, hresets, _⟩ := phase_launch now hunstarted
    exact .opened hunstarted (hopenings ▸ Nat.lt_succ_self _) hresets
  · exact .renewed (Nat.lt_succ_self _) le_rfl

theorem Effect.follows (heffect : Effect h now s s') : s.Follows s' :=
  (Step.effect heffect).follows

theorem Steps.follows (hsteps : Steps h now s s') : s.Follows s' := by
  induction hsteps with
  | refl => exact .goesOn (.refl s)
  | tail _ hstep ih => exact ih.trans hstep.follows

/-- What each step of a begun task relates that stays on its stream, all of them do together. -/
theorem Steps.related {R : Session σ → Session σ → Prop} (hrefl : ∀ s, R s s)
    (htrans : ∀ s t u, R s t → R t u → R s u)
    (hstep : ∀ s t, s.task.phase ≠ .unstarted → t.resets = s.resets → Step h now s t → R s t)
    (hsteps : Steps h now s s') (hphase : s.task.phase ≠ .unstarted)
    (hresets : s'.resets = s.resets) : R s s' := by
  induction hsteps with
  | refl => exact hrefl s
  | @tail t t' hsteps hlast ih =>
    have hfollows := Steps.follows hsteps
    have hkept : t.resets = s.resets :=
      le_antisymm (hlast.follows.resets.trans hresets.le) hfollows.resets
    have hbegun : t.task.phase ≠ .unstarted :=
      mt (hfollows.goesOn_of_resets hphase hkept).unstarted_iff.mp hphase
    exact htrans s t t' (ih hkept) (hstep t t' hbegun (hresets.trans hkept.symm) hlast)

theorem Step.settings (hstep : Step h now s s') : s'.task.settings = s.task.settings := by
  rcases hstep.goesOn_or with hgoes | ⟨_, rfl⟩ | ⟨_, rfl⟩
  · exact hgoes.settings
  · have hlaunches := launches now s
    generalize (s.launch now).1 = outcome, (s.launch now).2 = s' at hlaunches
    cases hlaunches <;> rfl
  · rfl

theorem Steps.settings (hsteps : Steps h now s s') : s'.task.settings = s.task.settings := by
  induction hsteps with
  | refl => rfl
  | tail _ hstep ih => exact hstep.settings.trans ih

structure Placed (s : Session σ) : Prop where
  opened : s.task.loops.isSome = true → s.task.phase = .opened
  connected : s.task.phase = .unstarted → s.task.stream = true
  taken : s.task.phase = .opened → s.task.stream = false
  /-- Every opening but that of an open task was followed by one close. -/
  balance : s.closes + (if s.task.phase = .opened then 1 else 0) = s.openings

theorem Placed.isOpen (hs : s.Placed) (hloops : s.task.loops.isSome = true) :
    s.task.isOpen = true :=
  Task.isOpen_iff.mpr (hs.opened hloops)

theorem Placed.begun (hs : s.Placed) (hloops : s.task.loops.isSome = true) :
    s.task.phase ≠ .unstarted := by
  rw [hs.opened hloops]
  exact nofun

theorem Placed.no_loops (hs : s.Placed) (hphase : s.task.phase ≠ .opened) :
    s.task.loops = none := by
  by_contra hloops
  exact hphase (hs.opened (Option.isSome_iff_ne_none.mpr hloops))

theorem Placed.goesOn (hs : s.Placed) (hgoes : s.GoesOn s') : s'.Placed := by
  rcases hgoes.phase with ⟨hphase, hloops, hcloses⟩ | ⟨hopened, hclosed, hloops, hcloses⟩
  · refine ⟨?_, ?_, ?_, ?_⟩
    · rw [hphase, hloops]
      exact hs.opened
    · rw [hphase, hgoes.stream]
      exact hs.connected
    · rw [hphase, hgoes.stream]
      exact hs.taken
    · rw [hphase, hcloses, hgoes.openings]
      exact hs.balance
  · have hbalance := hs.balance
    rw [hopened] at hbalance
    refine ⟨?_, ?_, ?_, ?_⟩
    · rw [hloops]
      exact nofun
    · rw [hclosed]
      exact nofun
    · rw [hclosed]
      exact nofun
    · rw [hclosed, hcloses, hgoes.openings, ← hbalance]
      rfl

theorem Placed.launch (hs : s.Placed) (hunstarted : s.task.phase = .unstarted) :
    (s.launch now).2.Placed := by
  have hbalance := hs.balance
  have hlaunches := launches now s
  rw [hunstarted] at hbalance
  have hopened := congrArg (· + 1) hbalance
  generalize (s.launch now).1 = outcome, (s.launch now).2 = s' at hlaunches
  cases hlaunches with
  | refused hphase => exact absurd hunstarted hphase
  | unconnected _ hstream =>
    rw [hs.connected hunstarted] at hstream
    cases hstream
  | started | overflow => exact ⟨fun _ => rfl, nofun, fun _ => rfl, hopened⟩

theorem Placed.renew (hs : s.Placed) (hclosed : s.task.phase = .closed) : s.renew.Placed := by
  have hbalance := hs.balance
  rw [hclosed] at hbalance
  refine ⟨fun hloops => ?_, fun _ => rfl, nofun, hbalance⟩
  have hopened := hs.opened hloops
  rw [hclosed] at hopened
  cases hopened

theorem Placed.step (hs : s.Placed) (hstep : Step h now s s') : s'.Placed := by
  rcases hstep.goesOn_or with hgoes | ⟨hunstarted, rfl⟩ | ⟨hclosed, rfl⟩
  · exact hs.goesOn hgoes
  · exact hs.launch hunstarted
  · exact hs.renew hclosed

theorem Placed.steps (hs : s.Placed) (hsteps : Steps h now s s') : s'.Placed := by
  induction hsteps with
  | refl => exact hs
  | tail _ hstep ih => exact ih.step hstep

theorem Placed.stock (hs : s.Placed) (spares : Nat) : Placed { s with spares } :=
  ⟨hs.opened, hs.connected, hs.taken, hs.balance⟩

/-- The task was closed meanwhile. It is open again only on a new stream. -/
structure Closes (s s' : Session σ) : Prop where
  closes : s.closes < s'.closes
  closed : s'.resets = s.resets → s'.task.phase = .closed

theorem Steps.closes (hsteps : Steps h now s s') : s.closes ≤ s'.closes := by
  induction hsteps with
  | refl => exact Nat.le_refl _
  | tail _ hstep ih =>
    refine ih.trans ?_
    rcases hstep.goesOn_or with hgoes | ⟨hunstarted, rfl⟩ | ⟨_, rfl⟩
    · rcases hgoes.phase with ⟨_, _, hcloses⟩ | ⟨_, _, _, hcloses⟩ <;> omega
    · exact (phase_launch now hunstarted).2.2.1.ge
    · exact Nat.le_refl _

theorem Steps.spares (hsteps : Steps h now s s') :
    s'.resets + s'.spares ≤ s.resets + s.spares := by
  induction hsteps with
  | refl => exact le_rfl
  | tail _ hstep ih =>
    refine le_trans ?_ ih
    cases hstep with
    | effect heffect =>
      cases heffect with
      | verify | stop | signal | push | report | shut => exact le_rfl
      | launch hunstarted =>
        obtain ⟨_, _, _, hresets, hspares, _⟩ := phase_launch now hunstarted
        rw [hresets, hspares]
      | discard => exact Nat.add_le_add_left (Nat.sub_le _ _) _
      | renew hspares =>
        simp only [Session.renew]
        omega
    | enter | stray | inbound | write | exit => exact le_rfl

theorem Steps.resets_of_no_spares (hsteps : Steps h now s s') (hspares : s.spares = 0) :
    s'.resets = s.resets ∧ s'.spares = 0 := by
  have hbudget := hsteps.spares
  have hresets := hsteps.follows.resets
  omega

/-- What actions make of a connection that was begun: only what is accepted for sending is noted,
and the loops are left alone or ended. -/
structure Kept (s s' : Session σ) : Prop where
  goesOn : s.GoesOn s'
  ledger : s'.ledger = { s.ledger with accepted := s'.ledger.accepted }
  loops : s'.task.loops = s.task.loops ∨ s'.task.loops = none

theorem Effects.kept (heffects : Effects h now s s') (hphase : s.task.phase ≠ .unstarted)
    (hresets : s'.resets = s.resets) : s.Kept s' := by
  have hgoes := heffects.steps.follows.goesOn_of_resets hphase hresets
  suffices hboth : s'.ledger = { s.ledger with accepted := s'.ledger.accepted } ∧
      (s'.task.loops = s.task.loops ∨ s'.task.loops = none) from ⟨hgoes, hboth.1, hboth.2⟩
  clear hgoes
  induction heffects with
  | refl => exact ⟨rfl, .inl rfl⟩
  | @tail s₁ s₂ heffects heffect ih =>
    have hfollows := (Effects.steps heffects).follows
    have hresets₁ : s₁.resets = s.resets :=
      le_antisymm (heffect.follows.resets.trans hresets.le) hfollows.resets
    have hgoes := hfollows.goesOn_of_resets hphase hresets₁
    obtain ⟨hledger, hloops⟩ := ih hresets₁
    cases heffect with
    | verify | stop | signal | report | discard => exact ⟨hledger, hloops⟩
    | shut => exact ⟨hledger, .inr rfl⟩
    | push bytes =>
      refine ⟨?_, hloops⟩
      rw [Session.push, hledger]
      rfl
    | launch hunstarted => exact absurd (hgoes.unstarted_iff.mp hunstarted) hphase
    | renew => exact absurd (hresets.trans hresets₁.symm) (Nat.succ_ne_self _)

theorem Effects.ledger (heffects : Effects h now s s') (hphase : s.task.phase ≠ .unstarted)
    (hresets : s'.resets = s.resets) :
    s'.ledger = { s.ledger with accepted := s'.ledger.accepted } :=
  (heffects.kept hphase hresets).ledger

/-- Actions note nothing but what is accepted for sending, unless they open the task. -/
theorem Effect.ledger_or (heffect : Effect h now s s') :
    s'.ledger = { s.ledger with accepted := s'.ledger.accepted } ∨ s'.ledger = .blank := by
  cases heffect with
  | verify | stop | signal | report | shut | discard | renew => exact .inl rfl
  | push => exact .inl rfl
  | launch hunstarted => exact .inr (phase_launch now hunstarted).2.2.2.2.2

theorem Effects.ledger_keeps {P : Ledger → Prop} (heffects : Effects h now s s')
    (hblank : P .blank) (haccepted : ∀ l accepted, P l → P { l with accepted })
    (hs : P s.ledger) : P s'.ledger := by
  induction heffects with
  | refl => exact hs
  | tail _ heffect ih =>
    rcases heffect.ledger_or with hsame | hnew
    · rw [hsame]
      exact haccepted _ _ ih
    · rw [hnew]
      exact hblank

/-! ## Connections that no loop has touched -/

theorem Untouched.effect (hs : s.Untouched) (heffect : Effect h now s s') : s'.Untouched := by
  cases heffect with
  | verify | stop | signal | push | report | discard => exact ⟨hs.ledger, hs.loops⟩
  | shut hopen =>
    have hphase : s.task.phase ≠ .unstarted := by
      rw [Task.isOpen_iff.mp hopen]
      exact nofun
    exact ⟨fun _ => hs.ledger hphase, nofun⟩
  | launch hunstarted =>
    have hlaunches := launches now s
    have hledger := (phase_launch now hunstarted).2.2.2.2.2
    refine ⟨fun _ => by rw [hledger]; exact ⟨rfl, rfl⟩, ?_⟩
    generalize (s.launch now).1 = outcome, (s.launch now).2 = s' at hlaunches
    cases hlaunches with
    | refused | unconnected | overflow => exact hs.loops
    | started =>
      rintro loops ⟨⟩
      rfl
  | renew => exact ⟨fun hphase => absurd rfl hphase, hs.loops⟩

theorem Untouched.effects (hs : s.Untouched) (heffects : Effects h now s s') : s'.Untouched := by
  induction heffects with
  | refl => exact hs
  | tail _ heffect ih => exact ih.effect heffect

theorem Effects.untouched (heffects : Effects h now s s') (hs : s.Placed)
    (hresets : s'.resets ≠ s.resets) : s'.Untouched := by
  induction heffects with
  | refl => exact absurd rfl hresets
  | @tail s₁ s₂ heffects heffect ih =>
    by_cases hkept : s₁.resets = s.resets
    · -- the last effect is the one that puts the task on a new stream
      have hs₁ := hs.steps (Effects.steps heffects)
      cases heffect with
      | verify | stop | signal | push | report | shut | discard => exact absurd hkept hresets
      | launch hunstarted =>
        obtain ⟨_, _, _, hsame, _⟩ := phase_launch now hunstarted
        exact absurd (hsame.trans hkept) hresets
      | renew _ hclosed =>
        have hloops := hs₁.no_loops (by rw [hclosed]; exact nofun)
        exact ⟨fun hphase => absurd rfl hphase, fun loops hsome => nomatch hloops.symm.trans hsome⟩
    · exact (ih hkept).effect heffect

theorem Placed.untouched (hs : s.Placed) (hphase : s.task.phase = .unstarted) : s.Untouched := by
  have hloops := hs.no_loops (by rw [hphase]; exact nofun)
  exact ⟨fun hno => absurd hphase hno, fun loops hsome => nomatch hloops.symm.trans hsome⟩

/-- Actions go on with a connection that was begun, or leave one that no loop has touched. -/
theorem Effects.kept_or_untouched {spares : Nat} (heffects : Effects h now { s with spares } s')
    (hs : s.Placed) :
    s.Kept s' ∨ s'.Untouched ∧ (s'.resets = s.resets → s.task.phase = .unstarted) := by
  have hs' := hs.stock spares
  by_cases hphase : s.task.phase = .unstarted
  · exact .inr ⟨(hs'.untouched hphase).effects heffects, fun _ => hphase⟩
  by_cases hresets : s'.resets = s.resets
  · obtain ⟨hgoes, hledger, hloops⟩ := heffects.kept hphase hresets
    exact .inl ⟨hgoes.of_stock, hledger, hloops⟩
  · exact .inr ⟨heffects.untouched hs' hresets, fun hkept => absurd hkept hresets⟩

/-! ## Actions -/

theorem effects_actQuietly (s : Session σ) (a : Action) : Effects h now s (s.actQuietly a).2 := by
  cases a with
  | verify => exact .single .verify
  | start | reset | close | terminate => exact .refl
  | sendSignal => exact .single .signal
  | stop =>
    rcases s.task.stop_cases with ⟨hopen, hstop⟩ | hstop
    · simp only [actQuietly, hstop]
      exact .single (.stop hopen)
    · simp only [actQuietly, hstop]
      exact .refl
  | sendBytes bytes =>
    cases hopen : s.task.isOpen with
    | true =>
      simp only [actQuietly, Task.sendBytes_of_isOpen hopen]
      exact .single (.push bytes hopen)
    | false =>
      simp only [actQuietly, Task.sendBytes_of_not_isOpen hopen]
      exact .refl
  | sendFrame f =>
    cases hopen : s.task.isOpen with
    | true =>
      simp only [actQuietly, Task.sendFrame_of_isOpen hopen]
      split_ifs
      · exact .single (.push f.toBytes hopen)
      · exact .refl
    | false =>
      simp only [actQuietly, Task.sendFrame_of_not_isOpen hopen]
      exact .refl

theorem phase_actQuietly (s : Session σ) (a : Action) :
    (s.actQuietly a).2.task.phase = s.task.phase := by
  cases a with
  | start | reset | verify | close | terminate | sendSignal => rfl
  | stop => exact s.task.phase_stop
  | sendBytes bytes => exact s.task.phase_sendBytes bytes
  | sendFrame f => exact s.task.phase_sendFrame f

theorem shutDown_of_isOpen (h : Handler σ) (hopen : s.task.isOpen = true) :
    s.shutDown h = ((h.onClose s.state s.task.shut).2, s.shut h) := by
  rw [shutDown, if_pos hopen]
  rfl

theorem shutDown_of_not_isOpen (h : Handler σ) (hopen : s.task.isOpen = false) :
    s.shutDown h = ([], s) := by
  rw [shutDown, if_neg (by simp [hopen])]

theorem effects_shutDown (s : Session σ) : Effects h now s (s.shutDown h).2 := by
  cases hopen : s.task.isOpen with
  | true =>
    rw [shutDown_of_isOpen h hopen]
    exact .single (.shut hopen)
  | false => rw [shutDown_of_not_isOpen h hopen]

theorem effects_launch (h : Handler σ) (now : Instant) (s : Session σ) :
    Effects h now s (s.launch now).2 := by
  by_cases hunstarted : s.task.phase = .unstarted
  · exact .single (.launch hunstarted)
  · have hlaunches := launches now s
    generalize (s.launch now).1 = outcome, (s.launch now).2 = s' at hlaunches
    cases hlaunches with
    | refused => exact .refl
    | unconnected hphase | started hphase | overflow hphase => exact absurd hphase hunstarted

theorem reset_cases (s : Session σ) :
    (s.task.phase = .closed ∧ s.task.verified = true ∧
      s.reset = (true, renew { s with spares := s.spares + 1 })) ∨ s.reset = (false, s) := by
  unfold reset Task.reset
  split_ifs with haccepted
  · exact .inl ⟨haccepted.1, haccepted.2, rfl⟩
  · exact .inr rfl

theorem effects_reset (h : Handler σ) (now : Instant) (s : Session σ) :
    Effects h now { s with spares := s.spares + 1 } s.reset.2 := by
  rcases s.reset_cases with ⟨hclosed, hverified, hreset⟩ | hreset
  · rw [hreset]
    exact .single (.renew (Nat.succ_pos _) hclosed hverified)
  · rw [hreset]
    exact .single .discard

theorem actBy_of_isQuiet (close : Session σ → Session σ) (now : Instant) (s : Session σ)
    {a : Action} (hquiet : a.isQuiet = true) : s.actBy close now a = s.actQuietly a := by
  cases a with
  | start | reset | close | terminate => cases hquiet
  | verify | stop | sendSignal | sendBytes | sendFrame => rfl

theorem effects_actBy {close : Session σ → Session σ}
    (hclose : ∀ s, Effects h now s (close s)) (s : Session σ) (a : Action) :
    Effects h now s (s.actBy close now a).2 := by
  cases a with
  | close | terminate => exact hclose s
  | verify | stop | sendSignal | sendBytes | sendFrame => exact effects_actQuietly s _
  | reset =>
    unfold actBy
    cases hspares : s.spares with
    | zero => exact .refl
    | succ spares =>
      have hreset := effects_reset h now { s with spares }
      have hsame : { s with spares := spares + 1 } = s := by rw [← hspares]
      rwa [hsame] at hreset
  | start =>
    have hlaunch := effects_launch h now s
    unfold actBy
    generalize s.launch now = out at hlaunch
    obtain ⟨outcome, s'⟩ := out
    cases outcome with
    | started | refused | overflow => exact hlaunch
    | unconnected => exact hlaunch.trans (hclose s')

theorem effects_actOnClose {close : Session σ → Session σ}
    (hclose : ∀ s, Effects h now s (close s)) (s : Session σ) (a : Action) :
    Effects h now s (s.actOnClose close now a) := by
  have hact := effects_actBy hclose s a
  unfold actOnClose
  dsimp only
  split_ifs
  · exact .refl
  · exact hact
  · exact hact.tail (.report _)

theorem effects_foldl {close : Session σ → Session σ} (hclose : ∀ s, Effects h now s (close s))
    (s : Session σ) (actions : List Action) :
    Effects h now s (actions.foldl (actOnClose close now) s) := by
  induction actions generalizing s with
  | nil => exact .refl
  | cons a actions ih => exact (effects_actOnClose hclose s a).trans (ih _)

theorem effects_closeWithin (depth : Nat) (s : Session σ) :
    Effects h now s (s.closeWithin h now depth) := by
  induction depth generalizing s with
  | zero => exact .refl
  | succ depth ih => exact (effects_shutDown s).trans (effects_foldl ih _ _)

theorem effects_close (s : Session σ) : Effects h now s (s.close h now) :=
  effects_closeWithin _ s

/-- An effect leaves no more closes than there were, and a close takes one of them. -/
theorem Effect.lives (heffect : Effect h now s s') : s'.lives ≤ s.lives := by
  unfold Session.lives
  cases heffect with
  | verify | stop | signal | push | report => exact Nat.le_refl _
  | shut hopen => simp [Session.shut, Task.shut, Task.isOpen_iff.mp hopen]
  | launch hunstarted =>
    obtain ⟨hopened, _, _, _, hspares, _⟩ := phase_launch now hunstarted
    simp [hopened, hspares, hunstarted]
  | discard => exact Nat.add_le_add_right (Nat.sub_le _ _) _
  | renew hspares hclosed =>
    simp only [Session.renew, hclosed]
    simp
    omega

theorem Effects.lives (heffects : Effects h now s s') : s'.lives ≤ s.lives := by
  induction heffects with
  | refl => exact Nat.le_refl _
  | tail _ heffect ih => exact heffect.lives.trans ih

theorem lives_shut (hopen : s.task.isOpen = true) : s.lives = (s.shut h).lives + 1 := by
  simp [lives, Session.shut, Task.shut, Task.isOpen_iff.mp hopen]

theorem closeWithin_of_isOpen (h : Handler σ) (now : Instant) (hopen : s.task.isOpen = true)
    (depth : Nat) :
    s.closeWithin h now (depth + 1) =
      (h.onClose s.state s.task.shut).2.foldl (actOnClose (closeWithin h now depth) now)
        (s.shut h) := by
  rw [closeWithin, shutDown_of_isOpen h hopen]

theorem closeWithin_of_not_isOpen (h : Handler σ) (now : Instant)
    (hopen : s.task.isOpen = false) (depth : Nat) : s.closeWithin h now depth = s := by
  cases depth with
  | zero => rfl
  | succ depth => rw [closeWithin, shutDown_of_not_isOpen h hopen]; rfl

theorem close_of_not_isOpen (h : Handler σ) (hopen : s.task.isOpen = false) :
    s.close h now = s :=
  closeWithin_of_not_isOpen h now hopen _

theorem close_of_isOpen (h : Handler σ) (now : Instant) (hopen : s.task.isOpen = true) :
    s.close h now = (h.onClose s.state s.task.shut).2.foldl
      (actOnClose (closeWithin h now (s.shut h).lives) now) (s.shut h) := by
  rw [close, lives_shut (h := h) hopen, closeWithin_of_isOpen h now hopen]

theorem actBy_congr {close close' : Session σ → Session σ} {s : Session σ}
    (hsame : ∀ t, Effects h now s t → close t = close' t) (a : Action) :
    s.actBy close now a = s.actBy close' now a := by
  cases a with
  | close | terminate => exact congrArg (Prod.mk none) (hsame s .refl)
  | verify | stop | sendSignal | sendBytes | sendFrame | reset => rfl
  | start =>
    have hlaunch := effects_launch h now s
    unfold actBy
    generalize s.launch now = out at hlaunch
    obtain ⟨outcome, t⟩ := out
    cases outcome with
    | started | refused | overflow => rfl
    | unconnected => exact congrArg (Prod.mk (some false)) (hsame t hlaunch)

theorem foldl_congr {close close' : Session σ → Session σ}
    (hclose : ∀ s, Effects h now s (close s)) {s : Session σ}
    (hsame : ∀ t, Effects h now s t → close t = close' t) (actions : List Action) :
    actions.foldl (actOnClose close now) s = actions.foldl (actOnClose close' now) s := by
  induction actions generalizing s with
  | nil => rfl
  | cons a actions ih =>
    have hact : s.actOnClose close now a = s.actOnClose close' now a := by
      rw [actOnClose, actOnClose, actBy_congr hsame]
    rw [List.foldl_cons, List.foldl_cons, ← hact]
    exact ih fun t heffects => hsame t ((effects_actOnClose hclose s a).trans heffects)

theorem closeWithin_congr {depth depth' : Nat} (hdepth : s.lives ≤ depth)
    (hdepth' : s.lives ≤ depth') :
    s.closeWithin h now depth = s.closeWithin h now depth' := by
  induction depth generalizing s depth' with
  | zero =>
    have hopen : s.task.isOpen = false := by
      by_contra hopen
      have hlives := lives_shut (h := h) (by simpa using hopen)
      omega
    rw [closeWithin_of_not_isOpen h now hopen, closeWithin_of_not_isOpen h now hopen]
  | succ depth ih =>
    cases hopen : s.task.isOpen with
    | false => rw [closeWithin_of_not_isOpen h now hopen, closeWithin_of_not_isOpen h now hopen]
    | true =>
      have hlives := lives_shut (h := h) hopen
      obtain ⟨depth', rfl⟩ := Nat.exists_eq_succ_of_ne_zero (n := depth') (by omega)
      rw [closeWithin_of_isOpen h now hopen, closeWithin_of_isOpen h now hopen]
      refine foldl_congr (effects_closeWithin depth) (fun t heffects => ?_) _
      have hless := heffects.lives
      exact ih (by omega) (by omega)

/-- A task cannot be closed more often than its streams allow: closes inside a close are done as any
other close is. -/
theorem close_eq (h : Handler σ) (now : Instant) (s : Session σ) :
    s.close h now =
      (s.shutDown h).1.foldl (actOnClose (close h now) now) (s.shutDown h).2 := by
  cases hopen : s.task.isOpen with
  | false =>
    rw [close_of_not_isOpen h hopen, shutDown_of_not_isOpen h hopen]
    rfl
  | true =>
    rw [close_of_isOpen h now hopen, shutDown_of_isOpen h hopen]
    exact foldl_congr (effects_closeWithin _)
      (fun t heffects => closeWithin_congr heffects.lives (Nat.le_refl _)) _

theorem effects_close_of_shut (hopen : s.task.isOpen = true) :
    Effects h now (s.shut h) (s.close h now) := by
  rw [close_of_isOpen h now hopen]
  exact effects_foldl (effects_closeWithin _) _ _

theorem isOpen_close (hresets : (s.close h now).resets = s.resets) :
    (s.close h now).task.isOpen = false := by
  cases hopen : s.task.isOpen with
  | true =>
    have heffects : Effects h now (s.shut h) (s.close h now) := effects_close_of_shut hopen
    exact (heffects.steps.follows.goesOn_of_resets nofun hresets).not_isOpen rfl
  | false => rw [close_of_not_isOpen h hopen, hopen]

theorem act_of_isQuiet (h : Handler σ) (now : Instant) (s : Session σ) {a : Action}
    (hquiet : a.isQuiet = true) : s.act h now a = s.actQuietly a :=
  actBy_of_isQuiet (close h now) now s hquiet

theorem effects_act (h : Handler σ) (now : Instant) (s : Session σ) (a : Action) :
    Effects h now s (s.act h now a).2 :=
  effects_actBy effects_close s a

theorem effects_actAll (s : Session σ) (actions : List Action) :
    Effects h now s (s.actAll h now actions).2 := by
  induction actions generalizing s with
  | nil => exact .refl
  | cons a actions ih =>
    have hact : Effects h now s (s.act h now a).2 := effects_act h now s a
    rw [actAll]
    generalize s.act h now a = out at hact
    obtain ⟨result, s'⟩ := out
    dsimp only
    split
    · exact hact
    · exact hact.trans (ih s')

end FrameLink.Session
