import FrameLink.Proofs.Link.Moves

/-!
# Tasks that a start strands

A start opens its task and takes the stream before it looks for the deadline. If the deadline is no
instant, the start ends there, and leaves the task open without loops and without a stream that
loops could take. No task gets there in another way.
-/

namespace FrameLink

variable {σ : Type}

namespace Task

/-- An unstarted task with all that a start takes. -/
structure Startable (t : Task) : Prop where
  phase : t.phase = .unstarted
  stream : t.stream = true
  loops : t.loops = none

/-- An open task whose loops have this deadline ahead, and no bytes yet. -/
structure Launched (time : Instant) (t : Task) : Prop where
  phase : t.phase = .opened
  loops : t.loops = some
    { inbound := .withCapacity t.settings.bufferSize
      scratch := .withCapacity t.settings.bufferSize
      writing := false, deadline := time, armed := true }

/-- An open task that has neither loops nor a stream for them. -/
structure Stranded (t : Task) : Prop where
  phase : t.phase = .opened
  loops : t.loops = none
  stream : t.stream = false

variable {t : Task} {time : Instant}

theorem startable_ofSettings (settings : Settings) : (ofSettings settings).Startable :=
  ⟨rfl, rfl, rfl⟩

theorem Launched.not_stranded (ht : t.Launched time) : ¬t.Stranded := by
  intro hstranded
  have hloops := hstranded.loops
  rw [ht.loops] at hloops
  cases hloops

theorem Startable.start (ht : t.Startable) (now : Instant) :
    (now + t.settings.verifyTimeout < timeBound ∧ (t.start now).1 = .started ∧
        (t.start now).2.Launched (now + t.settings.verifyTimeout)) ∨
      (timeBound ≤ now + t.settings.verifyTimeout ∧ (t.start now).1 = .overflow ∧
        (t.start now).2.Stranded) := by
  rw [Task.start, if_neg (not_not.mpr ht.phase), if_neg (not_not.mpr ht.stream)]
  split_ifs with htime
  · exact .inr ⟨htime, rfl, rfl, ht.loops, rfl⟩
  · exact .inl ⟨Nat.not_le.mp htime, rfl, rfl, rfl⟩

end Task

namespace Session

variable {h : Handler σ} {now : Instant} {s s' : Session σ}

theorem Placed.startable (hs : s.Placed) (hphase : s.task.phase = .unstarted) :
    s.task.Startable :=
  ⟨hphase, hs.connected hphase, hs.no_loops (by rw [hphase]; exact nofun)⟩

theorem Placed.stranded (hs : s.Placed) (hopened : s.task.phase = .opened)
    (hloops : s.task.loops = none) : s.task.Stranded :=
  ⟨hopened, hloops, hs.taken hopened⟩

theorem start_of_startable (h : Handler σ) (hs : s.task.Startable) (now : Instant) :
    s.start h now = ((s.task.start now).1, (s.launch now).2) := by
  refine Prod.ext rfl ?_
  rcases hs.start now with ⟨_, hstarted, _⟩ | ⟨_, hoverflow, _⟩
  · simp only [start, act, actBy, launch, hstarted]
  · simp only [start, act, actBy, launch, hoverflow]

theorem task_launch (hs : s.task.Startable) (now : Instant) :
    (s.launch now).2.task = (s.task.start now).2 := by
  rcases hs.start now with ⟨_, hstarted, _⟩ | ⟨_, hoverflow, _⟩ <;> simp [launch, *]

theorem GoesOn.opened_before (hgoes : s.GoesOn s') (hopened : s'.task.phase = .opened) :
    s.task.phase = .opened := by
  rcases hgoes.phase with ⟨hphase, _⟩ | ⟨hphase, _⟩
  · exact hphase.symm.trans hopened
  · exact hphase

theorem GoesOn.stranded_iff (hgoes : s.GoesOn s') (hopened : s'.task.phase = .opened) :
    s'.task.Stranded ↔ s.task.Stranded := by
  rcases hgoes.phase with ⟨hphase, hloops, _⟩ | ⟨_, hclosed, _⟩
  · have hnone : s'.task.loops = none ↔ s.task.loops = none := by
      rw [← Option.not_isSome_iff_eq_none, hloops, Option.not_isSome_iff_eq_none]
    constructor
    · rintro ⟨_, hloops', hstream⟩
      exact ⟨hphase.symm.trans hopened, hnone.mp hloops', hgoes.stream.symm.trans hstream⟩
    · rintro ⟨_, hloops', hstream⟩
      exact ⟨hopened, hnone.mpr hloops', hgoes.stream.trans hstream⟩
  · rw [hclosed] at hopened
    cases hopened

/-- The task was opened meanwhile, the last time at this instant, which has stranded it if the
deadline was no instant. -/
structure Opened (now : Instant) (s s' : Session σ) : Prop where
  openings : s.openings < s'.openings
  stranded : s'.task.Stranded ↔ timeBound ≤ now + s.task.settings.verifyTimeout

theorem opened_launch (now : Instant) (hs : s.Placed) (hphase : s.task.phase = .unstarted) :
    s.Opened now (s.launch now).2 := by
  obtain ⟨_, hopenings, _⟩ := phase_launch now hphase
  refine ⟨hopenings ▸ Nat.lt_succ_self _, ?_⟩
  rw [task_launch (hs.startable hphase)]
  rcases (hs.startable hphase).start now with ⟨htime, _, ht⟩ | ⟨htime, _, ht⟩
  · exact ⟨fun hstranded => absurd hstranded ht.not_stranded,
      fun hle => absurd htime (Nat.not_lt.mpr hle)⟩
  · exact ⟨fun _ => htime, fun _ => ht⟩

/-- A task that is open after steps was opened by one of them, or was open before. -/
theorem Steps.opened (hsteps : Steps h now s s') (hs : s.Placed)
    (hopened : s'.task.phase = .opened) : s.GoesOn s' ∨ s.Opened now s' := by
  induction hsteps with
  | refl => exact .inl (.refl s)
  | @tail t t' hsteps hstep ih =>
    have hfollows := Steps.follows hsteps
    have hsettings := Steps.settings hsteps
    have ht := hs.steps hsteps
    rcases hstep.goesOn_or with hgoes | ⟨hunstarted, rfl⟩ | ⟨_, rfl⟩
    · refine (ih (hgoes.opened_before hopened)).imp (·.trans hgoes) fun hmeanwhile => ?_
      exact ⟨hmeanwhile.openings.trans_eq hgoes.openings.symm,
        (hgoes.stranded_iff hopened).trans hmeanwhile.stranded⟩
    · have hlaunch := opened_launch now ht hunstarted
      refine .inr ⟨hfollows.openings.trans_lt hlaunch.openings, ?_⟩
      rw [hlaunch.stranded, hsettings]
    · cases hopened

end Session

namespace Link.Run

variable {h : Handler σ} {r : Run σ}

theorem start_cases (hs : r.link.session.Placed) (hphase : r.link.session.task.phase = .unstarted) :
    let time := r.now + r.link.session.task.settings.verifyTimeout
    let out := r.move h (.act .start)
    (time < timeBound ∧ out.1 = .returned true ∧ out.2.link.session.task.Launched time) ∨
      (timeBound ≤ time ∧ out.1 = .overflow ∧ out.2.link.session.task.Stranded) := by
  intro time out
  have hstart := Session.start_of_startable h (hs.startable hphase) r.now
  have htask : out.2.link.session.task = (r.link.session.task.start r.now).2 := by
    simp only [out, move, Link.act, Link.start, Link.after, hstart]
    exact Session.task_launch (hs.startable hphase) r.now
  rw [htask]
  rcases (hs.startable hphase).start r.now with ⟨htime, hstarted, ht⟩ | ⟨htime, hoverflow, ht⟩
  · exact .inl ⟨htime, by simp only [out, move, Link.act, Link.start, hstart, hstarted], ht⟩
  · exact .inr ⟨htime, by simp only [out, move, Link.act, Link.start, hstart, hoverflow], ht⟩

/-- The first run is at the move in which the task of the second run was opened, and at which it was
stranded if it is. -/
def Opens (h : Handler σ) (began : Run σ) (m : Move) (r : Run σ) : Prop :=
  r.link.session.openings = (began.move h m).2.link.session.openings ∧
    began.link.session.Opened began.now r.link.session

theorem Opens.goesOn {began r' : Run σ} {m : Move} (hopens : Opens h began m r)
    (hgoes : r.link.session.GoesOn r'.link.session)
    (hopened : r'.link.session.task.phase = .opened) : Opens h began m r' :=
  ⟨hgoes.openings.trans hopens.1, hopens.2.openings.trans_eq hgoes.openings.symm,
    (hgoes.stranded_iff hopened).trans hopens.2.stranded⟩

theorem opened_move (hs : r.link.session.Placed) {m : Move}
    (hopened : (r.move h m).2.link.session.task.phase = .opened) :
    r.link.session.GoesOn (r.move h m).2.link.session ∨ Opens h r m (r.move h m).2 := by
  obtain ⟨spares, hsteps⟩ := steps_move (h := h) hs m
  rcases hsteps.opened (hs.stock spares) hopened with hgoes | hmeanwhile
  · exact .inl hgoes.of_stock
  · exact .inr ⟨rfl, hmeanwhile.openings, hmeanwhile.stranded⟩

/-- Every task that is open was opened in one of the moves of the run, which has been the last one
to open it. -/
theorem exists_opens (h : Handler σ) (state : σ) (settings : Task.Settings) (list : List Move)
    (hopened : ((init state settings).moves h list).link.session.task.phase = .opened) :
    ∃ before m after, list = before ++ m :: after ∧
      Opens h ((init state settings).moves h before) m ((init state settings).moves h list) := by
  -- from the end of the run, where each move but that one leaves the question to those before it
  induction list using List.reverseRecOn with
  | nil => cases hopened
  | append_singleton list m ih =>
    have hs := (sound_moves h state settings list).placed
    rw [moves_concat] at hopened ⊢
    rcases opened_move hs hopened with hgoes | hopens
    · obtain ⟨before, m', after, hlist, hopens⟩ := ih (hgoes.opened_before hopened)
      exact ⟨before, m', after ++ [m], by simp [hlist], hopens.goesOn hgoes hopened⟩
    · exact ⟨list, m, [], rfl, hopens⟩

theorem now_le_moves (r : Run σ) (list : List Move) : r.now ≤ (r.moves h list).now :=
  moves_keep (P := fun r' => r.now ≤ r'.now) (fun r' m hle => hle.trans (now_le_move r' m))
    (Nat.le_refl _) list

/-- An open task without loops is stranded, for want of an instant. -/
theorem stranded_of_no_loops (h : Handler σ) (state : σ) (settings : Task.Settings)
    (list : List Move) :
    let r := (init state settings).moves h list
    r.link.session.task.phase = .opened → r.link.session.task.loops = none →
      r.link.session.task.Stranded ∧ timeBound ≤ r.now + settings.verifyTimeout := by
  intro r hopened hloops
  have hstranded := (sound_moves h state settings list).placed.stranded hopened hloops
  obtain ⟨before, m, after, hlist, _, hopens⟩ := exists_opens h state settings list hopened
  have htime := hopens.stranded.mp hstranded
  have hnow : ((init state settings).moves h before).now ≤ r.now := by
    simp only [r, hlist, moves_append]
    exact now_le_moves _ (m :: after)
  rw [settings_moves] at htime
  exact ⟨hstranded, htime.trans (Nat.add_le_add_right hnow _)⟩

end Link.Run

end FrameLink
