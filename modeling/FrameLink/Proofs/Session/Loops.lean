import FrameLink.Proofs.Session.Steps
import FrameLink.Proofs.Stream.Receiving

/-!
# The steps of the loops

What the loops of a task do is steps too: the receive loop hands over frames, and what the callbacks
do about them are effects; the send loop writes, and where it ends the task is closed. As long as
the task stays on its stream, the ledger tells which frames and which bytes these were. A receive
loop that goes on behind a callback that put the task on a new stream does not touch the new
connection.
-/

namespace FrameLink.Session

variable {σ : Type} {h : Handler σ} {now : Instant} {s s' t : Session σ}

theorem handle_of_isOpen (hopen : s.task.isOpen = true) (k : Nat) (frame : Bytes) :
    s.handle h now k frame =
      let out := (s.enter h (s.resets == k) frame).actAll h now
        (h.onFrame s.state s.task frame).2
      if out.2.task.isStranded then (out.2, false)
      else
        ({ out.2 with entries := .handled frame out.1 :: out.2.entries }, out.2.task.isOpen) := by
  rw [handle, if_pos hopen]
  rfl

theorem effects_handle (h : Handler σ) (now : Instant) (hopen : s.task.isOpen = true) (k : Nat)
    (frame : Bytes) :
    Effects h now (s.enter h (s.resets == k) frame) (s.handle h now k frame).1 := by
  have hactions : Effects h now (s.enter h (s.resets == k) frame)
      ((s.enter h (s.resets == k) frame).actAll h now (h.onFrame s.state s.task frame).2).2 :=
    effects_actAll _ _
  rw [handle_of_isOpen hopen]
  dsimp only
  split
  · exact hactions
  · exact hactions.tail (.report (.handled frame _))

theorem wants_handle (h : Handler σ) (now : Instant) (hopen : s.task.isOpen = true) (k : Nat)
    (frame : Bytes) :
    (s.handle h now k frame).2 =
      ((s.handle h now k frame).1.task.isOpen && !(s.handle h now k frame).1.task.isStranded) := by
  rw [handle_of_isOpen hopen]
  dsimp only
  split_ifs with hstranded
  · simp [hstranded]
  · simp [hstranded]

/-- What a receive loop that began with this session makes of it when it hands over these frames. As
long as the task stays on its stream the loop wants more while the task is open. Behind a callback
that put the task on a new stream, it hands over the frames of the old one. -/
structure Handles (h : Handler σ) (now : Instant) (s : Session σ) (frames : List Bytes)
    (t : Session σ) (wants : Bool) : Prop where
  steps : Steps h now s t
  kept : t.resets = s.resets → wants = t.task.isOpen ∧ t.ledger =
    { s.ledger with frames := s.ledger.frames ++ frames, accepted := t.ledger.accepted }
  left : t.resets ≠ s.resets → t.Untouched

theorem steps_handle (h : Handler σ) (now : Instant) (hopen : s.task.isOpen = true)
    (frame : Bytes) :
    Steps h now s (s.handle h now s.resets frame).1 := by
  have heffects := effects_handle h now hopen s.resets frame
  rw [beq_self_eq_true] at heffects
  exact .head (.enter frame hopen) heffects.steps

/-- A loop whose task was put on a new stream does not touch the new connection. -/
theorem handle_stray (h : Handler σ) (now : Instant) {k : Nat} (hk : k < s.resets)
    (hopen : s.task.isOpen = true) (hs : s.Untouched) (frame : Bytes) :
    Steps h now s (s.handle h now k frame).1 ∧ (s.handle h now k frame).1.Untouched := by
  have heffects := effects_handle h now hopen k frame
  rw [beq_false_of_ne hk.ne'] at heffects
  have hentered : (s.enter h false frame).Untouched := ⟨hs.ledger, hs.loops⟩
  exact ⟨.head (.stray frame hopen hs) heffects.steps, hentered.effects heffects⟩

theorem isOpen_of_handle {k : Nat} {frame : Bytes} (hopen : s.task.isOpen = true)
    (hanswer : s.handle h now k frame = (s', true)) : s'.task.isOpen = true := by
  have hwants := wants_handle h now hopen k frame
  rw [hanswer, eq_comm, Bool.and_eq_true] at hwants
  exact hwants.1

theorem handed_stray {k : Nat} {frames : List Bytes} {wants : Bool}
    (hhanded : Handed (handle h now k) s frames t wants) (hk : k < s.resets)
    (hopen : s.task.isOpen = true) (hs : s.Untouched) : Steps h now s t ∧ t.Untouched := by
  induction hhanded with
  | done s => exact ⟨.refl, hs⟩
  | @more s s' t frame frames wants hanswer _ ih =>
    obtain ⟨hsteps, hs'⟩ := handle_stray h now hk hopen hs frame
    rw [hanswer] at hsteps hs'
    obtain ⟨hrest, ht⟩ :=
      ih (hk.trans_le hsteps.follows.resets) (isOpen_of_handle hopen hanswer) hs'
    exact ⟨hsteps.trans hrest, ht⟩
  | @last s t frame hanswer =>
    have hlast := handle_stray h now hk hopen hs frame
    rwa [hanswer] at hlast

theorem handles_handle (h : Handler σ) (now : Instant) (hs : s.Placed)
    (hloops : s.task.loops.isSome = true) (frame : Bytes) :
    Handles h now s [frame] (s.handle h now s.resets frame).1
      (s.handle h now s.resets frame).2 := by
  have hopen := hs.isOpen hloops
  have hsteps := steps_handle h now hopen frame
  have heffects := effects_handle h now hopen s.resets frame
  have hphase := hs.begun hloops
  rw [beq_self_eq_true] at heffects
  refine ⟨hsteps, fun hkept => ⟨?_, heffects.ledger hphase hkept⟩, fun hleft => ?_⟩
  · -- a task that stays on its stream is not stranded, for it has its loops while it is open
    have hgoes := hsteps.follows.goesOn_of_resets hphase hkept
    rw [wants_handle h now hopen]
    rcases hgoes.phase with ⟨_, hsome, _⟩ | ⟨_, hclosed, _⟩
    · simp [Task.isStranded, Option.isNone_eq_false_iff.mpr (hsome.trans hloops)]
    · simp [Task.isOpen, hclosed]
  · exact Effects.untouched heffects ⟨hs.opened, hs.connected, hs.taken, hs.balance⟩ hleft

theorem Handles.of_handed {frames : List Bytes} {wants : Bool}
    (hhanded : Handed (handle h now s.resets) s frames t wants) (hs : s.Placed)
    (hloops : s.task.loops.isSome = true) : Handles h now s frames t wants := by
  generalize hk : s.resets = k at hhanded
  induction hhanded with
  | done s =>
    exact ⟨.refl, fun _ => ⟨(hs.isOpen hloops).symm, by rw [List.append_nil]⟩,
      fun hno => absurd rfl hno⟩
  | @more s s' t frame frames wants hanswer hrest ih =>
    subst hk
    have hopen := hs.isOpen hloops
    have hfirst := handles_handle h now hs hloops frame
    have hopen' := isOpen_of_handle hopen hanswer
    rw [hanswer] at hfirst
    have hresets := hfirst.steps.follows.resets
    by_cases hkept : s'.resets = s.resets
    · have hgoes := hfirst.steps.follows.goesOn_of_resets (hs.begun hloops) hkept
      have hloops' : s'.task.loops.isSome = true := by
        rcases hgoes.phase with ⟨_, hsome, _⟩ | ⟨_, hclosed, _⟩
        · exact hsome.trans hloops
        · exact nomatch (Task.isOpen_iff.mp hopen').symm.trans hclosed
      have hlater := ih (hs.goesOn hgoes) hloops' hkept
      refine ⟨hfirst.steps.trans hlater.steps, fun hsame => ?_, fun hother => ?_⟩
      · obtain ⟨hwants, hledger⟩ := hlater.kept (hsame.trans hkept.symm)
        refine ⟨hwants, ?_⟩
        rw [hledger, (hfirst.kept hkept).2, List.append_assoc, List.singleton_append]
      · exact hlater.left fun hsame => hother (hsame.trans hkept)
    · obtain ⟨hstray, ht⟩ := handed_stray hrest (lt_of_le_of_ne hresets (Ne.symm hkept)) hopen'
        (hfirst.left hkept)
      refine ⟨hfirst.steps.trans hstray, fun hsame => ?_, fun _ => ht⟩
      exact absurd (le_antisymm (hstray.follows.resets.trans hsame.le) hresets) hkept
  | @last s t frame hanswer =>
    subst hk
    have hlast := handles_handle h now hs hloops frame
    rwa [hanswer] at hlast

/-- What the receive loop makes of a session with loops and of the bytes that have arrived: whole
frames from their front are handed to the callback, all there are as long as it wants more, and the
rest stays unless the loop ends or is aborted. -/
theorem deliver_handed (h : Handler σ) (now : Instant) {loops : Task.Loops}
    (hloops : s.task.loops = some loops) (arrived : Bytes) (horizon : Horizon) :
    ∃ frames rest t wants, Handed (handle h now s.resets) s frames t wants ∧
      (wants = true → frames =
        (parse s.task.settings.frameLimit (loops.inbound.unread ++ arrived)).frames) ∧
      (∀ f ∈ frames, Whole s.task.settings.frameLimit f) ∧
      loops.inbound.unread ++ arrived = frames.flatten ++ rest ∧
      ((∃ b : Buffer, b.unread = rest ∧ s.deliver h now arrived horizon =
          if t.resets = s.resets then { t with task := t.task.setInbound b } else t) ∨
        s.deliver h now arrived horizon = if t.task.isStranded then t else t.close h now) := by
  have hserved (arrivals : List Arrival) :
      arrivals = (if arrived.isEmpty then [] else [.chunk arrived]) →
        (⟨arrivals, horizon, 0⟩ : Reader).served = arrived := by
    rintro rfl
    cases arrived with
    | nil => rfl
    | cons x bytes => exact List.append_nil _
  unfold deliver
  rw [hloops]
  dsimp only
  generalize harrivals : (if arrived.isEmpty then [] else [Arrival.chunk arrived]) = arrivals
  have h' := receives s.task.settings.frameLimit (handle h now s.resets) s loops.inbound
    ⟨arrivals, horizon, 0⟩
  generalize receive s.task.settings.frameLimit (handle h now s.resets) s loops.inbound
    ⟨arrivals, horizon, 0⟩ = out at h'
  have hall := hserved arrivals harrivals.symm
  -- bytes that no read asked for belong to the rest, which is lost with the loop
  cases h' with
  | @stopped bytes frames t b' r' hands hgives =>
    refine ⟨frames, b'.unread ++ r'.served, t, false, hands.handed, nofun, hands.whole, ?_,
      .inr rfl⟩
    rw [← hall, hgives.served, ← List.append_assoc, hands.split, List.append_assoc]
  | @violated bytes frames t b' r' e hands hgives hscan =>
    have hbytes : loops.inbound.unread ++ arrived = loops.inbound.unread ++ bytes ++ r'.served := by
      rw [← hall, hgives.served, List.append_assoc]
    have hparse := hands.parse_violation hscan r'.served
    rw [← hbytes] at hparse
    refine ⟨frames, b'.unread ++ r'.served, t, true, hands.handed, fun _ => ?_, hands.whole, ?_,
      .inr rfl⟩
    · rw [hparse]
    · rw [hbytes, hands.split, List.append_assoc]
  | @failed frames t b' r' n total need e hands _ hscan =>
    rw [hall] at hands
    refine ⟨frames, b'.unread, t, true, hands.handed, fun _ => ?_, hands.whole, hands.split,
      .inr rfl⟩
    rw [hands.parse_missing hscan]
  | @waiting frames t b' r' n hands _ hscan =>
    rw [hall] at hands
    refine ⟨frames, b'.unread, t, true, hands.handed, fun _ => ?_, hands.whole, hands.split,
      .inl ⟨b', rfl, rfl⟩⟩
    rw [hands.parse_missing hscan]

/-- What a delivery comes to: the receive loop waits for more, or it has been aborted or broken off,
or it has ended and closed the task. -/
inductive Delivered (h : Handler σ) (now : Instant) (s t : Session σ) (rest : Bytes) :
    Session σ → Prop
  | waiting (b : Buffer) (hrest : b.unread = rest) (hkept : t.resets = s.resets) :
      Delivered h now s t rest { t with task := t.task.setInbound b }
  | left (hleft : t.resets ≠ s.resets) : Delivered h now s t rest t
  | closed : Delivered h now s t rest (t.close h now)

theorem deliver_cases (h : Handler σ) (now : Instant) (hs : s.Placed) {loops : Task.Loops}
    (hloops : s.task.loops = some loops) (arrived : Bytes) (horizon : Horizon) :
    ∃ frames rest t wants, Handles h now s frames t wants ∧
      (∀ f ∈ frames, Whole s.task.settings.frameLimit f) ∧
      loops.inbound.unread ++ arrived = frames.flatten ++ rest ∧
      Delivered h now s t rest (s.deliver h now arrived horizon) := by
  have hsome : s.task.loops.isSome = true := by
    rw [hloops]
    rfl
  obtain ⟨frames, rest, t, wants, hhanded, _, hwhole, hsplit, hdeliver⟩ :=
    deliver_handed h now hloops arrived horizon
  have hhandles := Handles.of_handed hhanded hs hsome
  refine ⟨frames, rest, t, wants, hhandles, hwhole, hsplit, ?_⟩
  rcases hdeliver with ⟨b, hb, hdeliver⟩ | hdeliver
  · rw [hdeliver]
    split_ifs with hkept
    · exact .waiting b hb hkept
    · exact .left hkept
  · rw [hdeliver]
    split_ifs with hstranded
    · -- only a task that was opened anew can be open without loops
      refine .left fun hkept => ?_
      have hgoes := hhandles.steps.follows.goesOn_of_resets (hs.begun hsome) hkept
      rw [Task.isStranded, Bool.and_eq_true, Task.isOpen_iff] at hstranded
      rcases hgoes.phase with ⟨_, hloops', _⟩ | ⟨_, hclosed, _⟩
      · rw [Option.isNone_iff_eq_none] at hstranded
        rw [hstranded.2, hloops] at hloops'
        cases hloops'
      · rw [hclosed] at hstranded
        cases hstranded.1
    · exact .closed

theorem deliver_of_no_loops (hloops : s.task.loops = none) (arrived : Bytes) (horizon : Horizon) :
    s.deliver h now arrived horizon = s := by
  rw [deliver, hloops]

theorem Delivered.steps {rest : Bytes} (hdelivered : Delivered h now s t rest s') :
    Steps h now t s' := by
  cases hdelivered with
  | waiting b => exact .single (.inbound b)
  | left => exact .refl
  | closed => exact (effects_close t).steps

theorem steps_deliver (hs : s.Placed) (arrived : Bytes) (horizon : Horizon) :
    Steps h now s (s.deliver h now arrived horizon) := by
  cases hloops : s.task.loops with
  | none => rw [deliver_of_no_loops hloops]
  | some loops =>
    obtain ⟨frames, rest, t, wants, hhandles, _, _, hdelivered⟩ :=
      deliver_cases h now hs hloops arrived horizon
    exact hhandles.steps.trans hdelivered.steps

/-- A delivery behind which the task is on another stream leaves the new connection untouched. -/
theorem untouched_deliver (hs : s.Placed) {arrived : Bytes} {horizon : Horizon}
    (hresets : (s.deliver h now arrived horizon).resets ≠ s.resets) :
    (s.deliver h now arrived horizon).Untouched := by
  cases hloops : s.task.loops with
  | none =>
    rw [deliver_of_no_loops hloops] at hresets
    exact absurd rfl hresets
  | some loops =>
    obtain ⟨frames, rest, t, wants, hhandles, _, _, hdelivered⟩ :=
      deliver_cases h now hs hloops arrived horizon
    generalize s.deliver h now arrived horizon = s' at hresets hdelivered ⊢
    cases hdelivered with
    | waiting _ _ hkept => exact absurd hkept hresets
    | left hleft => exact hhandles.left hleft
    | closed =>
      have heffects : Effects h now t (t.close h now) := effects_close t
      by_cases hkept : t.resets = s.resets
      · exact heffects.untouched (hs.steps hhandles.steps) fun hsame => hresets (hsame.trans hkept)
      · exact (hhandles.left hkept).effects heffects

/-- Behind a delivery that leaves the task on its stream, what was read ahead and what arrived are
the frames handled now and the rest, which is read ahead of the next ones if the receive loop goes
on. It neither writes nor ends the send loop. -/
theorem deliver_kept (hs : s.Placed) {loops : Task.Loops} (hloops : s.task.loops = some loops)
    {arrived : Bytes} {horizon : Horizon}
    (hresets : (s.deliver h now arrived horizon).resets = s.resets) :
    ∃ frames rest accepted, (∀ f ∈ frames, Whole s.task.settings.frameLimit f) ∧
      loops.inbound.unread ++ arrived = frames.flatten ++ rest ∧
      (s.deliver h now arrived horizon).ledger =
        { s.ledger with frames := s.ledger.frames ++ frames, accepted } ∧
      ∀ loops', (s.deliver h now arrived horizon).task.loops = some loops' →
        loops'.inbound.unread = rest := by
  have hsome : s.task.loops.isSome = true := by rw [hloops]; rfl
  have hsteps : Steps h now s (s.deliver h now arrived horizon) := steps_deliver hs arrived horizon
  have hplaced := hs.steps hsteps
  obtain ⟨frames, rest, t, wants, hhandles, hwhole, hsplit, hdelivered⟩ :=
    deliver_cases h now hs hloops arrived horizon
  have hkept : t.resets = s.resets :=
    le_antisymm (hdelivered.steps.follows.resets.trans hresets.le) hhandles.steps.follows.resets
  have hledger := (hhandles.kept hkept).2
  generalize s.deliver h now arrived horizon = s' at hresets hplaced hdelivered ⊢
  cases hdelivered with
  | waiting b hrest =>
    refine ⟨frames, rest, _, hwhole, hsplit, hledger, fun loops' hloops' => ?_⟩
    obtain ⟨_, _, rfl⟩ := Option.map_eq_some_iff.mp hloops'
    exact hrest
  | left hleft => exact absurd hkept hleft
  | closed =>
    have hgoes := hhandles.steps.follows.goesOn_of_resets (hs.begun hsome) hkept
    have hphase := mt hgoes.unstarted_iff.mp (hs.begun hsome)
    have hsame := hresets.trans hkept.symm
    have hclosed := Effects.ledger (effects_close t) hphase hsame
    rw [hledger] at hclosed
    refine ⟨frames, rest, _, hwhole, hsplit, hclosed, fun loops' hloops' => ?_⟩
    have hopen := hplaced.isOpen (by rw [hloops']; rfl)
    rw [isOpen_close hsame] at hopen
    cases hopen

theorem ledger_deliver (hs : s.Placed) {arrived : Bytes} {horizon : Horizon}
    (hresets : (s.deliver h now arrived horizon).resets = s.resets) :
    ∃ frames accepted, (s.deliver h now arrived horizon).ledger =
      { s.ledger with frames, accepted } := by
  cases hloops : s.task.loops with
  | none =>
    rw [deliver_of_no_loops hloops]
    exact ⟨_, _, rfl⟩
  | some loops =>
    obtain ⟨frames, _, accepted, _, _, hledger, _⟩ := deliver_kept hs hloops hresets
    exact ⟨_, _, hledger⟩

/-- What frames and actions keep up, and the buffer that the receive loop leaves, a delivery keeps
up. -/
theorem deliver_keeps {P : Session σ → Prop}
    (henter : ∀ s current frame, P s → P (s.enter h current frame))
    (heffects : ∀ s s', P s → Effects h now s s' → P s')
    (hinbound : ∀ loops, s.task.loops = some loops → ∀ t r, P t → P { t with
      task := t.task.setInbound (receive s.task.settings.frameLimit (handle h now s.resets) s
        loops.inbound r).buffer })
    (hs : P s) (arrived : Bytes) (horizon : Horizon) : P (s.deliver h now arrived horizon) := by
  have hhandle (s : Session σ) (frame : Bytes) (k : Nat) (hs : P s) :
      P (s.handle h now k frame).1 := by
    cases hopen : s.task.isOpen with
    | false =>
      rw [handle, if_neg (by simp [hopen])]
      exact hs
    | true => exact heffects _ _ (henter s _ frame hs) (effects_handle h now hopen k frame)
  unfold deliver
  cases hloops : s.task.loops with
  | none => exact hs
  | some loops =>
    dsimp only
    generalize (⟨if arrived.isEmpty then [] else [.chunk arrived], horizon, 0⟩ : Reader) = r
    have hstate : P (receive s.task.settings.frameLimit (handle h now s.resets) s loops.inbound
        r).state := receive_keeps (fun t frame => hhandle t frame s.resets) hs loops.inbound r
    have hbuffer := hinbound loops hloops _ r hstate
    split
    · split_ifs
      · exact hbuffer
      · exact hstate
    · split_ifs
      · exact hstate
      · exact heffects _ _ hstate (effects_close _)

theorem Effects.ending (heffects : Effects h now s s') (hs : s.ledger.ending = none) :
    s'.ledger.ending = none :=
  heffects.ledger_keeps (P := fun l => l.ending = none) rfl (fun _ _ hl => hl) hs

theorem ending_deliver (hs : s.ledger.ending = none) (arrived : Bytes) (horizon : Horizon) :
    (s.deliver h now arrived horizon).ledger.ending = none := by
  refine deliver_keeps (P := fun s => s.ledger.ending = none) (fun s current frame hs => ?_)
    (fun _ _ hs heffects => heffects.ending hs) (fun _ _ _ _ ht => ht) hs arrived horizon
  cases current <;> exact hs

theorem flush_of_no_loops {w : Writer} (hloops : s.task.loops = none) :
    s.flush h now w = (s, []) := by
  rw [flush, if_pos (by rw [hloops]; rfl)]

theorem flush_of_loops (h : Handler σ) (now : Instant) (w : Writer)
    (hloops : s.task.loops.isSome = true) :
    s.flush h now w =
      (if (s.task.runSendLoop now w).1.isSome then (s.wrote now w).close h now else s.wrote now w,
        (s.task.runSendLoop now w).2.2.taken) := by
  rw [flush, if_neg (by simp [Option.isNone_eq_false_iff.mpr hloops])]
  rfl

theorem flush_of_goes {w : Writer} (hloops : s.task.loops.isSome = true)
    (hgoes : (s.task.runSendLoop now w).1 = none) : (s.flush h now w).1 = s.wrote now w := by
  rw [flush_of_loops h now w hloops, hgoes]
  rfl

theorem flush_of_ends {w : Writer} {ending : Task.Exit}
    (hloops : s.task.loops.isSome = true)
    (hends : (s.task.runSendLoop now w).1 = some ending) :
    (s.flush h now w).1 = (s.wrote now w).close h now := by
  rw [flush_of_loops h now w hloops, hends]
  rfl

theorem steps_flush {w : Writer} (hfresh : w.Fresh) (hs : s.Placed) :
    Steps h now s (s.flush h now w).1 := by
  cases hloops : s.task.loops.isSome with
  | false => rw [flush_of_no_loops (by simpa using hloops)]
  | true =>
    have hopen := hs.isOpen hloops
    cases hends : (s.task.runSendLoop now w).1 with
    | none =>
      rw [flush_of_goes hloops hends]
      exact .single (.write hfresh hloops hopen hends)
    | some ending =>
      rw [flush_of_ends hloops hends]
      have hexit : Step h now s ((s.wrote now w).shut h) := .exit hfresh hloops hopen hends
      exact .head hexit (effects_close_of_shut ((isOpen_wrote now w s).trans hopen)).steps

theorem untouched_flush {w : Writer} (hs : s.Placed)
    (hresets : (s.flush h now w).1.resets ≠ s.resets) : (s.flush h now w).1.Untouched := by
  cases hloops : s.task.loops.isSome with
  | false =>
    rw [flush_of_no_loops (by simpa using hloops)] at hresets
    exact absurd rfl hresets
  | true =>
    have hwrote := hs.goesOn (goesOn_wrote now w s)
    rw [flush_of_loops h now w hloops] at hresets ⊢
    split_ifs at hresets ⊢
    · exact Effects.untouched (effects_close _) hwrote hresets
    · exact absurd rfl hresets

/-- A send loop that ends closes its task, and the ledger tells what it has written and how it
ended. -/
theorem closes_flush {w : Writer} (hs : s.Placed) {ending : Task.Exit}
    (hloops : s.task.loops.isSome = true)
    (hends : (s.task.runSendLoop now w).1 = some ending) :
    s.Closes (s.flush h now w).1 ∧ ((s.flush h now w).1.resets = s.resets →
      (s.flush h now w).1.ledger.ending = some ending ∧
        (s.flush h now w).1.ledger.written = (s.wrote now w).ledger.written) := by
  have hopen := (isOpen_wrote now w s).trans (hs.isOpen hloops)
  have hclose : Effects h now ((s.wrote now w).shut h) (s.flush h now w).1 := by
    rw [flush_of_ends hloops hends]
    exact effects_close_of_shut hopen
  refine ⟨⟨hclose.steps.closes, fun hkept => ?_⟩, fun hkept => ?_⟩
  · exact (hclose.steps.follows.goesOn_of_resets nofun hkept).closed rfl
  · rw [hclose.ledger nofun hkept]
    exact ⟨hends, rfl⟩

theorem written_flush {w : Writer} (hs : s.Placed)
    (hresets : (s.flush h now w).1.resets = s.resets) :
    (s.flush h now w).1.ledger.written = s.ledger.written ++ (s.flush h now w).2 := by
  cases hloops : s.task.loops.isSome with
  | false =>
    rw [flush_of_no_loops (by simpa using hloops)]
    exact (List.append_nil _).symm
  | true =>
    have hopened : (s.wrote now w).task.phase = .opened :=
      (Task.ran_runSendLoop now w s.task).phase.trans (hs.opened hloops)
    have hphase : (s.wrote now w).task.phase ≠ .unstarted := by
      rw [hopened]
      exact nofun
    rw [flush_of_loops h now w hloops] at hresets ⊢
    dsimp only at hresets ⊢
    split_ifs at hresets ⊢
    · rw [Effects.ledger (effects_close (s.wrote now w)) hphase hresets]
      rfl
    · rfl

end FrameLink.Session
