import FrameLink.Proofs.Stream.Sending

/-!
# Attempts to write out

Writing out makes one call after the other until a call fails, takes nothing or has to wait, or
until nothing is left to write, and only then it flushes. Bytes that were not taken stay where they
are, in their order. So attempts in a row, whatever became of each of them, write every byte once.
-/

namespace FrameLink

def Acceptance.Fails : Acceptance → Prop
  | .failure _ => True
  | .upTo _ | .pending => False

namespace Writer

/-- Calls in a row none of which fails, where each write is offered something and takes some. -/
structure Advances (w : Writer) (used : List WriteCall) (made : List (Nat × Bytes))
    (w' : Writer) : Prop where
  calls : w.calls = used ++ w'.calls
  writes : w'.writes = made ++ w.writes
  flushes : w'.flushes = w.flushes
  flushFailure : w'.flushFailure = w.flushFailure
  answered : ∀ c ∈ used, ¬c.answer.Fails
  taken : ∀ x ∈ made, x.1 ≠ 0 ∧ x.2 ≠ []

theorem Advances.refl (w : Writer) : w.Advances [] [] w :=
  ⟨rfl, rfl, rfl, rfl, nofun, nofun⟩

inductive Writes (offered : Bytes) (w : Writer) : Outcome → Writer → Prop
  | took (used : List WriteCall) {bytes : Bytes} {w' : Writer}
      (hcalls : w.calls = used ++ w'.calls) (hanswered : ∀ c ∈ used, ¬c.answer.Fails)
      (hwrites : w'.writes = (offered.length, bytes) :: w.writes)
      (hflushes : w'.flushes = w.flushes) (hfailure : w'.flushFailure = w.flushFailure) :
      Writes offered w (.taken bytes) w'
  | failed (used : List WriteCall) {e : IoError} {w' : Writer}
      (hcalls : w.calls = used ++ w'.calls) (hfails : ∃ c ∈ used, c.answer.Fails)
      (hwrites : w'.writes = w.writes) (hflushes : w'.flushes = w.flushes) :
      Writes offered w (.failed e) w'
  | waiting (used : List WriteCall) {w' : Writer}
      (hcalls : w.calls = used ++ w'.calls) (hwrites : w'.writes = w.writes)
      (hflushes : w'.flushes = w.flushes) : Writes offered w .waiting w'

theorem Writes.pending {offered queued : Bytes} {calls : List WriteCall} {room : Option Nat}
    {flushFailure : Option IoError} {writes : List (Nat × Bytes)} {flushes : Nat}
    {outcome : Outcome} {w' : Writer}
    (h : Writes offered ⟨calls, room, flushFailure, writes, flushes⟩ outcome w') :
    Writes offered ⟨⟨queued, .pending⟩ :: calls, room, flushFailure, writes, flushes⟩ outcome
      w' := by
  cases h with
  | took used hcalls hanswered hwrites hflushes hfailure =>
    refine .took (⟨queued, .pending⟩ :: used) (congrArg _ hcalls) ?_ hwrites hflushes hfailure
    exact List.forall_mem_cons.mpr ⟨id, hanswered⟩
  | failed used hcalls hfails hwrites hflushes =>
    obtain ⟨c, hc, hfail⟩ := hfails
    exact .failed (⟨queued, .pending⟩ :: used) (congrArg _ hcalls)
      ⟨c, List.mem_cons_of_mem _ hc, hfail⟩ hwrites hflushes
  | waiting used hcalls hwrites hflushes =>
    exact .waiting (⟨queued, .pending⟩ :: used) (congrArg _ hcalls) hwrites hflushes

theorem writes_write (offered : Bytes) (queue : Buffer) (w : Writer) :
    Writes offered w (w.write offered queue).1 (w.write offered queue).2.2 := by
  fun_induction write offered queue w with
  | case1 | case3 => exact .took [] rfl (List.forall_mem_nil _) rfl rfl rfl
  | case2 => exact .waiting [] rfl rfl rfl
  | case4 queue queued calls room flushFailure writes flushes ih => exact ih.pending
  | case5 queue queued e calls room flushFailure writes flushes =>
    exact .failed [⟨queued, .failure e⟩] rfl ⟨_, List.mem_singleton_self _, trivial⟩ rfl rfl
  | case6 queue queued count calls room flushFailure writes flushes =>
    refine .took [⟨queued, .upTo count⟩] rfl ?_ rfl rfl rfl
    exact List.forall_mem_singleton.mpr id

end Writer

namespace Outbox

/-- How writing out ends: with a flush behind calls that all took something, or else at once behind
a call that failed, took nothing or has to wait. What such a call was offered is still there. -/
inductive Concludes (w : Writer) (used : List WriteCall) (made : List (Nat × Bytes)) :
    Except IoError Progress → Outbox → Writer → Prop
  | flushed {q' : Outbox} {last : Writer} (hadvances : w.Advances used made last)
      (hempty : q'.waiting = []) :
      Concludes w used made (last.flush.1.map fun _ => .done) q' last.flush.2
  | failed {e : IoError} {q' : Outbox} {w' : Writer} (hcalls : w.calls = used ++ w'.calls)
      (hwrites : w'.writes = made ++ w.writes) (hflushes : w'.flushes = w.flushes)
      (hoffered : ∀ x ∈ made, x.1 ≠ 0)
      (hfails : (∃ c ∈ used, c.answer.Fails) ∨ ∃ x ∈ made, x.2 = [])
      (hleft : q'.scratch.unread ≠ []) : Concludes w used made (.error e) q' w'
  | waiting {q' : Outbox} {w' : Writer} (hcalls : w.calls = used ++ w'.calls)
      (hwrites : w'.writes = made ++ w.writes) (hflushes : w'.flushes = w.flushes)
      (hoffered : ∀ x ∈ made, x.1 ≠ 0) (hleft : q'.scratch.unread ≠ []) :
      Concludes w used made (.ok .waiting) q' w'

variable {w w' w'' : Writer} {used more : List WriteCall} {made further : List (Nat × Bytes)}
  {result : Except IoError Progress} {q' : Outbox}

theorem Concludes.calls (h : Concludes w used made result q' w') :
    w.calls = used ++ w'.calls ∧ w'.writes = made ++ w.writes := by
  cases h with
  | flushed hadvances => exact ⟨hadvances.calls, hadvances.writes⟩
  | failed hcalls hwrites | waiting hcalls hwrites => exact ⟨hcalls, hwrites⟩

theorem Concludes.offered (h : Concludes w used made result q' w') : ∀ x ∈ made, x.1 ≠ 0 := by
  cases h with
  | flushed hadvances => exact fun x hx => (hadvances.taken x hx).1
  | failed _ _ _ hoffered | waiting _ _ _ hoffered => exact hoffered

/-- The calls succeed where they lead to a flush with nothing left to write, and else end with
bytes left and no flush. -/
theorem Concludes.succeeds_or (h : Concludes w used made result q' w') :
    let succeeds := (∀ c ∈ used, ¬c.answer.Fails) ∧ (∀ x ∈ made, x.2 ≠ []) ∧
      result ≠ .ok .waiting
    (succeeds ∧ ∃ last, w.Advances used made last ∧ q'.waiting = [] ∧
        (last.flush.1.map fun _ => .done, last.flush.2) = (result, w')) ∨
      (¬succeeds ∧ result ≠ .ok .done ∧ q'.scratch.unread ≠ [] ∧ w'.flushes = w.flushes) := by
  cases h with
  | @flushed _ last hadvances hempty =>
    have hresult : (last.flush.1.map fun _ => Progress.done) ≠ .ok .waiting := by
      cases hflush : last.flush.1 <;> simp [Except.map]
    exact .inl ⟨⟨hadvances.answered, fun x hx => (hadvances.taken x hx).2, hresult⟩, last,
      hadvances, hempty, rfl⟩
  | failed _ _ hflushes _ hfails hleft =>
    refine .inr ⟨?_, by simp, hleft, hflushes⟩
    rintro ⟨hanswered, htaken, _⟩
    rcases hfails with ⟨c, hc, hfail⟩ | ⟨x, hx, hnil⟩
    · exact hanswered c hc hfail
    · exact htaken x hx hnil
  | waiting _ _ hflushes _ hleft =>
    exact .inr ⟨fun hsucceeds => hsucceeds.2.2 rfl, by simp, hleft, hflushes⟩

theorem Concludes.after (hfirst : w.Advances used made w')
    (hrest : Concludes w' more further result q' w'') :
    Concludes w (used ++ more) (further ++ made) result q' w'' := by
  cases hrest with
  | flushed hadvances hempty =>
    refine .flushed ⟨?_, ?_, ?_, ?_, ?_, ?_⟩ hempty
    · rw [hfirst.calls, hadvances.calls, List.append_assoc]
    · rw [hadvances.writes, hfirst.writes, List.append_assoc]
    · exact hadvances.flushes.trans hfirst.flushes
    · exact hadvances.flushFailure.trans hfirst.flushFailure
    · exact List.forall_mem_append.mpr ⟨hfirst.answered, hadvances.answered⟩
    · exact List.forall_mem_append.mpr ⟨hadvances.taken, hfirst.taken⟩
  | failed hcalls hwrites hflushes hoffered hfails hleft =>
    refine .failed ?_ ?_ (hflushes.trans hfirst.flushes) ?_ ?_ hleft
    · rw [hfirst.calls, hcalls, List.append_assoc]
    · rw [hwrites, hfirst.writes, List.append_assoc]
    · exact List.forall_mem_append.mpr ⟨hoffered, fun x hx => (hfirst.taken x hx).1⟩
    · refine hfails.imp ?_ ?_
      · exact fun ⟨c, hc, hfail⟩ => ⟨c, List.mem_append_right _ hc, hfail⟩
      · exact fun ⟨x, hx, hnil⟩ => ⟨x, List.mem_append_left _ hx, hnil⟩
  | waiting hcalls hwrites hflushes hoffered hleft =>
    refine .waiting ?_ ?_ (hflushes.trans hfirst.flushes) ?_ hleft
    · rw [hfirst.calls, hcalls, List.append_assoc]
    · rw [hwrites, hfirst.writes, List.append_assoc]
    · exact List.forall_mem_append.mpr ⟨hoffered, fun x hx => (hfirst.taken x hx).1⟩

theorem concludes_writeOut (q : Outbox) (w : Writer) :
    ∃ used made, Concludes w used made (q.writeOut w).1 (q.writeOut w).2.1
      (q.writeOut w).2.2 := by
  fun_induction writeOut q w with
  | case1 q w drained hempty result w' hflush =>
    have hdone : drained.waiting = [] := by
      rw [waiting, List.isEmpty_iff.mp hempty, unread_drain, List.append_nil]
    have hconcludes : Concludes w [] [] (w.flush.1.map fun _ => .done) drained w.flush.2 :=
      .flushed (.refl w) hdone
    rw [hflush] at hconcludes
    exact ⟨[], [], hconcludes⟩
  | case2 q w drained hscratch e queue w' hwrite =>
    have h := Writer.writes_write drained.scratch.unread drained.queue w
    rw [hwrite] at h
    cases h with
    | failed used hcalls hfails hwrites hflushes =>
      exact ⟨used, [], .failed hcalls hwrites hflushes (List.forall_mem_nil _) (.inl hfails)
        (by simpa using hscratch)⟩
  | case3 q w drained hscratch queue w' hwrite =>
    have h := Writer.writes_write drained.scratch.unread drained.queue w
    rw [hwrite] at h
    cases h with
    | waiting used hcalls hwrites hflushes =>
      exact ⟨used, [], .waiting hcalls hwrites hflushes (List.forall_mem_nil _)
        (by simpa using hscratch)⟩
  | case4 q w drained hscratch queue w' hwrite =>
    have hoffered : drained.scratch.unread ≠ [] := by simpa using hscratch
    have h := Writer.writes_write drained.scratch.unread drained.queue w
    rw [hwrite] at h
    cases h with
    | took used hcalls _ hwrites hflushes _ =>
      refine ⟨used, [(drained.scratch.unread.length, [])], .failed hcalls hwrites hflushes ?_ ?_
        hoffered⟩
      · refine List.forall_mem_singleton.mpr fun hlength => ?_
        exact hoffered (List.length_eq_zero_iff.mp hlength)
      · exact .inr ⟨_, List.mem_singleton_self _, rfl⟩
  | case5 q w drained hscratch x bytes queue w' hwrite ih =>
    have hoffered : drained.scratch.unread ≠ [] := by simpa using hscratch
    have h := Writer.writes_write drained.scratch.unread drained.queue w
    rw [hwrite] at h
    cases h with
    | took used hcalls hanswered hwrites hflushes hfailure =>
      obtain ⟨more, further, hconcludes⟩ := ih
      have hadvances : w.Advances used [(drained.scratch.unread.length, x :: bytes)] w' := by
        refine ⟨hcalls, hwrites, hflushes, hfailure, hanswered, ?_⟩
        exact List.forall_mem_singleton.mpr
          ⟨fun hlength => hoffered (List.length_eq_zero_iff.mp hlength), List.cons_ne_nil _ _⟩
      exact ⟨_, _, .after hadvances hconcludes⟩

def attempts : Nat → Outbox × Writer → Outbox × Writer
  | 0, s => s
  | n + 1, s => attempts n (s.1.writeOut s.2).2

theorem passes_attempts (n : Nat) (q : Outbox) (w : Writer) :
    ∃ used, q.Passes w used (attempts n (q, w)).1 (attempts n (q, w)).2 := by
  induction n generalizing q w with
  | zero => exact ⟨[], rfl, rfl, .refl w, (List.append_nil _).symm⟩
  | succ n ih =>
    obtain ⟨used, hcomes⟩ := comes_writeOut q w
    obtain ⟨more, hrest⟩ := ih (q.writeOut w).2.1 (q.writeOut w).2.2
    exact ⟨used ++ more, hcomes.passes.trans hrest⟩

theorem conserves_attempts (n : Nat) (q : Outbox) (w : Writer) :
    ∃ used, w.calls = used ++ (attempts n (q, w)).2.calls ∧
      (attempts n (q, w)).2.taken ++ (attempts n (q, w)).1.scratch.unread ++
          (attempts n (q, w)).1.queue.unread =
        w.taken ++ q.scratch.unread ++ q.queue.unread ++ incoming used := by
  obtain ⟨used, hpasses⟩ := passes_attempts n q w
  refine ⟨used, hpasses.calls, ?_⟩
  simpa only [waiting, ← List.append_assoc] using hpasses.bytes

theorem room_of_waiting {q : Outbox} {w : Writer} (hwaiting : (q.writeOut w).1 = .ok .waiting) :
    w.room ≠ none ∧ (q.writeOut w).2.2.room = some 0 := by
  obtain ⟨used, hcomes⟩ := comes_writeOut q w
  have hroom := (hcomes.waits hwaiting).1
  have hbounded := hcomes.passes.shrinks.bounded
  rw [hroom] at hbounded
  exact ⟨fun hnone => absurd (hbounded.trans (congrArg Option.isSome hnone)) (by simp), hroom⟩

/-- Whatever a stream answers and others queue meanwhile: what it takes, then what the scratch
buffer still holds, then what the queue still holds are the bytes from before and those queued
meanwhile, in this order. Writing out succeeds if and only if no call fails, every write takes
something, none has to wait for room and the flush succeeds. If every write succeeds nothing is
left, and the one flush comes behind all of them. Otherwise there is none, and what the last call
was offered is left. So attempts in a row neither repeat nor skip a byte. -/
theorem writeOut_conserves (q : Outbox) (w : Writer) :
    ∃ used made,
      let result := (q.writeOut w).1
      let q' := (q.writeOut w).2.1
      let w' := (q.writeOut w).2.2
      let succeeds := (∀ c ∈ used, ¬c.answer.Fails) ∧ (∀ x ∈ made, x.2 ≠ []) ∧
        result ≠ .ok .waiting
      w.calls = used ++ w'.calls ∧ w'.writes = made ++ w.writes ∧
        w'.taken ++ q'.scratch.unread ++ q'.queue.unread =
          w.taken ++ q.scratch.unread ++ q.queue.unread ++ incoming used ∧
        (result = .ok .done ↔ succeeds ∧ w.flushFailure = none) ∧
        (result = .ok .waiting → w.room ≠ none ∧ w'.room = some 0) ∧
        (∀ x ∈ made, x.1 ≠ 0) ∧
        (succeeds → q'.scratch.unread = [] ∧ q'.queue.unread = [] ∧ ∃ last : Writer,
          last.writes = w'.writes ∧ last.flushes = w.flushes ∧
            (last.flush.1.map fun _ => .done, last.flush.2) = (result, w')) ∧
        (¬succeeds → q'.scratch.unread ≠ [] ∧ w'.flushes = w.flushes) ∧
        ∀ n, ∃ used, w.calls = used ++ (attempts n (q, w)).2.calls ∧
          (attempts n (q, w)).2.taken ++ (attempts n (q, w)).1.scratch.unread ++
              (attempts n (q, w)).1.queue.unread =
            w.taken ++ q.scratch.unread ++ q.queue.unread ++ incoming used := by
  obtain ⟨used, made, hconcludes⟩ := concludes_writeOut q w
  obtain ⟨hcalls, hwrites⟩ := hconcludes.calls
  obtain ⟨used', hcomes⟩ := comes_writeOut q w
  have hused : used' = used := List.append_cancel_right (hcomes.passes.calls.symm.trans hcalls)
  have hbytes := hcomes.passes.bytes
  rw [hused] at hbytes
  simp only [waiting, ← List.append_assoc] at hbytes
  refine ⟨used, made, hcalls, hwrites, hbytes, ?_⟩
  rcases hconcludes.succeeds_or with ⟨hsucceeds, last, hadvances, hempty, hlast⟩ |
    ⟨hno, hundone, hleft, hflushes⟩
  · obtain ⟨hscratch, hqueue⟩ := List.append_eq_nil_iff.mp hempty
    refine ⟨?_, room_of_waiting, hconcludes.offered,
      fun _ => ⟨hscratch, hqueue, last, ?_, hadvances.flushes, hlast⟩,
      fun hno => absurd hsucceeds hno, fun n => conserves_attempts n q w⟩
    · rw [and_iff_right hsucceeds, ← hadvances.flushFailure, ← congrArg Prod.fst hlast]
      cases hfailure : last.flushFailure <;> simp [Writer.flush, hfailure, Except.map]
    · rw [← congrArg Prod.snd hlast]
      rfl
  · exact ⟨⟨fun hdone => absurd hdone hundone, fun hsucceeds => absurd hsucceeds.1 hno⟩,
      room_of_waiting, hconcludes.offered, fun hsucceeds => absurd hsucceeds hno,
      fun _ => ⟨hleft, hflushes⟩, fun n => conserves_attempts n q w⟩

end Outbox

end FrameLink
