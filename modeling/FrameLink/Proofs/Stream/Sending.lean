import FrameLink.Outbox
import FrameLink.Proofs.Buffer.Store
import Mathlib.Data.List.Infix

/-!
# What sending puts on a stream

Bytes on their way out move from the queue over the scratch buffer to the stream and keep their
order. Between two states of an outbox, whatever the stream answers, the bytes taken and the bytes
still waiting are those from before and those that other producers queued meanwhile. A stream that
takes something with every write takes all of them. A write has to wait only where all the room
there was is used up.
-/

namespace FrameLink

/-- The bytes that other producers queue in front of these answers. -/
def incoming (calls : List WriteCall) : Bytes :=
  calls.flatMap WriteCall.queued

theorem incoming_append (calls more : List WriteCall) :
    incoming (calls ++ more) = incoming calls ++ incoming more :=
  List.flatMap_append

theorem incoming_eq_nil_of_append {calls more : List WriteCall}
    (h : incoming (calls ++ more) = []) : incoming calls = [] := by
  rw [incoming_append] at h
  exact (List.append_eq_nil_iff.mp h).1

/-- Neither a failure nor a write that takes nothing. -/
def Acceptance.Progresses : Acceptance → Prop
  | .upTo count => 0 < count
  | .pending => True
  | .failure _ => False

namespace Writer

/-- A stream that has taken nothing yet and lets no other producer in between. -/
structure Fresh (w : Writer) : Prop where
  taken : w.taken = []
  incoming : incoming w.calls = []

theorem fresh_ofRoom (room : Option Nat) : (ofRoom room).Fresh :=
  ⟨rfl, rfl⟩

theorem fresh_broken : broken.Fresh :=
  ⟨rfl, rfl⟩

structure TakesAll (w : Writer) : Prop where
  calls : w.calls = []
  room : w.room = none
  flush : w.flushFailure = none

theorem takesAll_willing : willing.TakesAll :=
  ⟨rfl, rfl, rfl⟩

theorem foldl_taken (writes : List (Nat × Bytes)) (after : Bytes) :
    writes.foldl (fun after write => write.2 ++ after) after =
      writes.foldl (fun after write => write.2 ++ after) [] ++ after := by
  induction writes generalizing after with
  | nil => rfl
  | cons write writes ih =>
    simp only [List.foldl_cons, List.append_nil]
    rw [ih (write.2 ++ after), ih write.2, List.append_assoc]

theorem taken_cons (calls : List WriteCall) (room : Option Nat) (flushFailure : Option IoError)
    (writes : List (Nat × Bytes)) (flushes offered : Nat) (bytes : Bytes) :
    taken ⟨calls, room, flushFailure, (offered, bytes) :: writes, flushes⟩ =
      taken ⟨calls, room, flushFailure, writes, flushes⟩ ++ bytes := by
  simp only [taken, List.foldl_cons, List.append_nil]
  exact foldl_taken writes bytes

/-- Between two states of a stream, room was lost only to bytes that it took behind all its
answers. -/
structure Shrinks (w w' : Writer) : Prop where
  bounded : w'.room.isSome = w.room.isSome
  room : w.calls = [] → w'.room.map (· + w'.taken.length) = w.room.map (· + w.taken.length)

theorem Shrinks.refl (w : Writer) : w.Shrinks w :=
  ⟨rfl, fun _ => rfl⟩

theorem Shrinks.trans {w w' w'' : Writer} (h : w.Shrinks w') (h' : w'.Shrinks w'')
    (hcalls : w.calls = [] → w'.calls = []) : w.Shrinks w'' :=
  ⟨h'.bounded.trans h.bounded, fun hnone => (h'.room (hcalls hnone)).trans (h.room hnone)⟩

inductive Answers (offered : Bytes) (queue : Buffer) (w : Writer) :
    Outcome → Buffer → Writer → Prop
  | took (used : List WriteCall) {bytes : Bytes} {queue' : Buffer} {w' : Writer}
      (hcalls : w.calls = used ++ w'.calls) (hflush : w'.flushFailure = w.flushFailure)
      (hshrinks : w.Shrinks w')
      (hqueue : queue'.unread = queue.unread ++ incoming used) (hbytes : bytes <+: offered)
      (htaken : w'.taken = w.taken ++ bytes)
      (hprogress : (∀ c ∈ used, c.answer.Progresses) → offered ≠ [] → bytes ≠ []) :
      Answers offered queue w (.taken bytes) queue' w'
  | failed (used : List WriteCall) {e : IoError} {queue' : Buffer} {w' : Writer}
      (hcalls : w.calls = used ++ w'.calls) (hflush : w'.flushFailure = w.flushFailure)
      (hshrinks : w.Shrinks w')
      (hqueue : queue'.unread = queue.unread ++ incoming used) (htaken : w'.taken = w.taken)
      (hfailure : ∃ c ∈ used, ¬c.answer.Progresses) : Answers offered queue w (.failed e) queue' w'
  | waiting (used : List WriteCall) {queue' : Buffer} {w' : Writer}
      (hcalls : w.calls = used ++ w'.calls) (hflush : w'.flushFailure = w.flushFailure)
      (hshrinks : w.Shrinks w')
      (hqueue : queue'.unread = queue.unread ++ incoming used) (htaken : w'.taken = w.taken)
      (hroom : w'.room = some 0) : Answers offered queue w .waiting queue' w'

theorem Answers.pending {offered queued : Bytes} {queue queue' : Buffer} {calls : List WriteCall}
    {room : Option Nat} {flushFailure : Option IoError} {writes : List (Nat × Bytes)}
    {flushes : Nat} {outcome : Outcome} {w' : Writer}
    (h : Answers offered (queue.append queued) ⟨calls, room, flushFailure, writes, flushes⟩ outcome
      queue' w') :
    Answers offered queue ⟨⟨queued, .pending⟩ :: calls, room, flushFailure, writes, flushes⟩
      outcome queue' w' := by
  have hfirst (hshrinks : Shrinks ⟨calls, room, flushFailure, writes, flushes⟩ w') :
      Shrinks ⟨⟨queued, .pending⟩ :: calls, room, flushFailure, writes, flushes⟩ w' :=
    ⟨hshrinks.bounded, nofun⟩
  cases h with
  | took used hcalls hflush hshrinks hqueue hbytes htaken hprogress =>
    rw [Buffer.unread_append, List.append_assoc] at hqueue
    refine .took (⟨queued, .pending⟩ :: used) (congrArg _ hcalls) hflush (hfirst hshrinks) hqueue
      hbytes htaken ?_
    intro hused
    exact hprogress fun c hc => hused c (List.mem_cons_of_mem _ hc)
  | failed used hcalls hflush hshrinks hqueue htaken hfailure =>
    rw [Buffer.unread_append, List.append_assoc] at hqueue
    obtain ⟨c, hc, hfail⟩ := hfailure
    exact .failed (⟨queued, .pending⟩ :: used) (congrArg _ hcalls) hflush (hfirst hshrinks) hqueue
      htaken ⟨c, List.mem_cons_of_mem _ hc, hfail⟩
  | waiting used hcalls hflush hshrinks hqueue htaken hroom =>
    rw [Buffer.unread_append, List.append_assoc] at hqueue
    exact .waiting (⟨queued, .pending⟩ :: used) (congrArg _ hcalls) hflush (hfirst hshrinks) hqueue
      htaken hroom

theorem answers (offered : Bytes) (queue : Buffer) (w : Writer) :
    Answers offered queue w (w.write offered queue).1 (w.write offered queue).2.1
      (w.write offered queue).2.2 := by
  fun_induction write offered queue w with
  | case1 queue flushFailure writes flushes =>
    exact .took [] rfl rfl ⟨rfl, fun _ => rfl⟩ (List.append_nil _).symm List.prefix_rfl
      (taken_cons ..) fun _ hoffered => hoffered
  | case2 queue flushFailure writes flushes =>
    exact .waiting [] rfl rfl (.refl _) (List.append_nil _).symm rfl rfl
  | case3 queue n flushFailure writes flushes bytes =>
    have hle : bytes.length ≤ n + 1 := List.length_take_le _ _
    refine .took [] rfl rfl ⟨rfl, fun _ => ?_⟩ (List.append_nil _).symm (List.take_prefix ..)
      (taken_cons ..) ?_
    · rw [taken_cons, List.length_append]
      simp only [Option.map_some, taken]
      exact congrArg some (by omega)
    · intro _ hoffered htake
      exact (List.take_eq_nil_iff.mp htake).elim (Nat.succ_ne_zero n) hoffered
  | case4 queue queued calls room flushFailure writes flushes ih => exact ih.pending
  | case5 queue queued e calls room flushFailure writes flushes =>
    refine .failed [⟨queued, .failure e⟩] rfl rfl ⟨rfl, by simp⟩ ?_ rfl ?_
    · rw [Buffer.unread_append, incoming, List.flatMap_singleton]
    · exact ⟨_, List.mem_singleton_self _, id⟩
  | case6 queue queued count calls room flushFailure writes flushes =>
    refine .took [⟨queued, .upTo count⟩] rfl rfl ⟨rfl, by simp⟩ ?_ (List.take_prefix ..)
      (taken_cons ..) ?_
    · rw [Buffer.unread_append, incoming, List.flatMap_singleton]
    · intro hused hoffered htake
      have hcount : 0 < count := hused _ (List.mem_singleton_self _)
      rcases List.take_eq_nil_iff.mp htake with rfl | hnil
      · exact absurd hcount (Nat.lt_irrefl 0)
      · exact hoffered hnil

end Writer

namespace Outbox

/-- The bytes on their way out, in order. -/
def waiting (q : Outbox) : Bytes :=
  q.scratch.unread ++ q.queue.unread

theorem waiting_drain (q : Outbox) : q.drain.waiting = q.waiting := by
  unfold drain
  split
  · rfl
  · rw [waiting, Buffer.unread_append, Buffer.unread_reset]
    exact List.append_nil _

theorem unread_drain (q : Outbox) : q.drain.queue.unread = [] := by
  unfold drain
  split
  · rename_i hempty
    exact List.isEmpty_iff.mp hempty
  · exact q.queue.unread_reset

/-- Between two states of an outbox and its stream, bytes only moved on. -/
structure Passes (q : Outbox) (w : Writer) (used : List WriteCall) (q' : Outbox) (w' : Writer) :
    Prop where
  calls : w.calls = used ++ w'.calls
  flush : w'.flushFailure = w.flushFailure
  shrinks : w.Shrinks w'
  bytes : w'.taken ++ q'.waiting = w.taken ++ q.waiting ++ incoming used

theorem Passes.trans {q q' q'' : Outbox} {w w' w'' : Writer} {used more : List WriteCall}
    (h : q.Passes w used q' w') (h' : q'.Passes w' more q'' w'') :
    q.Passes w (used ++ more) q'' w'' where
  calls := by rw [h.calls, h'.calls, List.append_assoc]
  flush := h'.flush.trans h.flush
  shrinks := h.shrinks.trans h'.shrinks fun hnone =>
    (List.append_eq_nil_iff.mp (h.calls.symm.trans hnone)).2
  bytes := by rw [h'.bytes, h.bytes, incoming_append, List.append_assoc]

variable {q : Outbox} {w w' : Writer} {used : List WriteCall} {queue : Buffer}

theorem passes_drain (q : Outbox) (w : Writer) : q.Passes w [] q.drain w where
  calls := rfl
  flush := rfl
  shrinks := .refl w
  bytes := by
    rw [waiting_drain]
    exact (List.append_nil _).symm

theorem passes_write {bytes : Bytes} (hcalls : w.calls = used ++ w'.calls)
    (hflush : w'.flushFailure = w.flushFailure) (hshrinks : w.Shrinks w')
    (hqueue : queue.unread = q.queue.unread ++ incoming used)
    (hbytes : bytes <+: q.scratch.unread) (htaken : w'.taken = w.taken ++ bytes) :
    q.Passes w used ⟨queue, q.scratch.consume bytes.length⟩ w' where
  calls := hcalls
  flush := hflush
  shrinks := hshrinks
  bytes := by
    have hscratch := List.prefix_append_drop hbytes
    rw [htaken, waiting, waiting, Buffer.unread_consume, hqueue]
    conv_rhs => rw [hscratch]
    simp only [List.append_assoc]

theorem passes_idle (hcalls : w.calls = used ++ w'.calls)
    (hflush : w'.flushFailure = w.flushFailure) (hshrinks : w.Shrinks w')
    (hqueue : queue.unread = q.queue.unread ++ incoming used) (htaken : w'.taken = w.taken) :
    q.Passes w used { q with queue } w' where
  calls := hcalls
  flush := hflush
  shrinks := hshrinks
  bytes := by
    rw [htaken, waiting, waiting, hqueue]
    simp only [List.append_assoc]

/-- What writing can come to, whatever the stream answers. It succeeds only when nothing is left,
and waits only when there is no room. It does succeed on a stream without a bound to it that takes
something with every write. -/
structure Comes (q : Outbox) (w : Writer) (used : List WriteCall)
    (out : Except IoError Progress × Outbox × Writer) : Prop where
  passes : q.Passes w used out.2.1 out.2.2
  done : out.1 = .ok .done → out.2.1.waiting = []
  waits : out.1 = .ok .waiting → out.2.2.room = some 0 ∧ out.2.1.scratch.unread ≠ []
  succeeds : w.flushFailure = none → w.room = none → (∀ c ∈ used, c.answer.Progresses) →
    out.1 = .ok .done

variable {out : Except IoError Progress × Outbox × Writer}

theorem Comes.after {q' : Outbox} {more : List WriteCall} (hfirst : q.Passes w used q' w')
    (hrest : q'.Comes w' more out) : q.Comes w (used ++ more) out where
  passes := hfirst.trans hrest.passes
  done := hrest.done
  waits := hrest.waits
  succeeds hflush hroom hused := by
    have hroom' : w'.room = none := by
      have hbounded := hfirst.shrinks.bounded
      rwa [hroom, Option.isSome_none, Option.isSome_eq_false_iff, Option.isNone_iff_eq_none]
        at hbounded
    exact hrest.succeeds (hfirst.flush.trans hflush) hroom' fun c hc =>
      hused c (List.mem_append_right _ hc)

theorem comes_resume (hoffered : q.scratch.unread ≠ [])
    (hrest : ∀ x bytes queue w', w.write q.scratch.unread q.queue =
        (.taken (x :: bytes), queue, w') → ∃ used,
      Comes ⟨queue, q.scratch.consume (x :: bytes).length⟩ w' used
        (writeOut ⟨queue, q.scratch.consume (x :: bytes).length⟩ w')) :
    ∃ used, q.Comes w used (q.resume w) := by
  have h := Writer.answers q.scratch.unread q.queue w
  unfold resume
  generalize w.write q.scratch.unread q.queue = out at h hrest ⊢
  obtain ⟨outcome, queue, w'⟩ := out
  cases h with
  | failed used hcalls hflush hshrinks hqueue htaken hfailure =>
    refine ⟨used, passes_idle hcalls hflush hshrinks hqueue htaken, nofun, nofun,
      fun _ _ hused => ?_⟩
    obtain ⟨c, hc, hfail⟩ := hfailure
    exact absurd (hused c hc) hfail
  | waiting used hcalls hflush hshrinks hqueue htaken hroom =>
    refine ⟨used, passes_idle hcalls hflush hshrinks hqueue htaken, nofun,
      fun _ => ⟨hroom, hoffered⟩, fun _ hnone _ => ?_⟩
    have hbounded := hshrinks.bounded
    rw [hroom, hnone] at hbounded
    cases hbounded
  | @took used bytes _ _ hcalls hflush hshrinks hqueue hbytes htaken hprogress =>
    cases bytes with
    | nil =>
      rw [List.append_nil] at htaken
      refine ⟨used, passes_idle hcalls hflush hshrinks hqueue htaken, nofun, nofun,
        fun _ _ hused => ?_⟩
      exact absurd rfl (hprogress hused hoffered)
    | cons x bytes =>
      obtain ⟨more, hcomes⟩ := hrest x bytes queue w' rfl
      exact ⟨_, .after (passes_write hcalls hflush hshrinks hqueue hbytes htaken) hcomes⟩

/-- Writing out goes on as from a write that had to wait, unless nothing is left. -/
theorem writeOut_eq (q : Outbox) (w : Writer) :
    q.writeOut w =
      if q.drain.scratch.unread = [] then
        (w.flush.1.map fun _ => .done, q.drain, w.flush.2)
      else q.drain.resume w := by
  rw [writeOut]
  simp only [List.isEmpty_iff]
  split_ifs
  · rfl
  · rw [resume]
    split <;> simp_all

theorem comes_writeOut (q : Outbox) (w : Writer) : ∃ used, q.Comes w used (q.writeOut w) := by
  -- every write that takes something leaves less to be written or to be expected
  induction hn : q.pending + w.expected using Nat.strong_induction_on generalizing q w with
  | _ n ih =>
    subst hn
    rw [writeOut_eq]
    split_ifs with hempty
    · refine ⟨[], ⟨rfl, rfl, ⟨rfl, fun _ => rfl⟩, (passes_drain q w).bytes⟩, fun _ => ?_,
        fun hwaiting => ?_, fun hflush _ _ => ?_⟩
      · rw [waiting, hempty, unread_drain, List.append_nil]
      · cases hresult : w.flush.1 <;> simp [hresult, Except.map] at hwaiting
      · simp [Writer.flush, hflush, Except.map]
    · obtain ⟨used, hcomes⟩ := comes_resume (w := w) hempty fun x bytes queue w' hwrite =>
        ih _ (pending_drain q ▸ pending_taken hempty hwrite) _ _ rfl
      exact ⟨_, .after (passes_drain q w) hcomes⟩

theorem comes_resume_of_writing (hoffered : q.scratch.unread ≠ []) (w : Writer) :
    ∃ used, q.Comes w used (q.resume w) :=
  comes_resume hoffered fun _ _ _ _ _ => comes_writeOut _ _

end Outbox

end FrameLink
