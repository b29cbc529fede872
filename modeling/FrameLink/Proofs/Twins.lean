import FrameLink.Proofs.Task

/-!
# Twins

Two tasks are twins if nothing but the store behind their queues tells them apart: the same bytes
are queued, and all else is the same. No operation finds a difference, so twins answer alike and
stay twins.
-/

namespace FrameLink

/-! ## Writing -/

theorem Writer.write_beside (offered : Bytes) {queue queue' : Buffer}
    (hqueue : queue'.unread = queue.unread) (w : Writer) :
    ∃ b, b.unread = (w.write offered queue).2.1.unread ∧
      w.write offered queue' = ((w.write offered queue).1, b, (w.write offered queue).2.2) := by
  have happend (bytes : Bytes) {b b' : Buffer} (hb : b'.unread = b.unread) :
      (b'.append bytes).unread = (b.append bytes).unread := by
    rw [Buffer.unread_append, Buffer.unread_append, hb]
  fun_induction write offered queue w generalizing queue' with
  | case1 | case2 | case3 => exact ⟨_, hqueue, by rw [write]⟩
  | case4 queue queued calls room flushFailure writes flushes ih =>
    rw [write]
    exact ih (happend queued hqueue)
  | case5 queue queued => exact ⟨_, happend queued hqueue, by rw [write]⟩
  | case6 queue queued => exact ⟨_, happend queued hqueue, by rw [write]⟩

namespace Outbox

/-- The same bytes at the same places. -/
structure Twin (q q' : Outbox) : Prop where
  queue : q'.queue.unread = q.queue.unread
  scratch : q'.scratch = q.scratch

/-- Writing of one kind does the same to twins. -/
def TwinWrite (write : Outbox → Writer → Except IoError Progress × Outbox × Writer)
    (q q' : Outbox) (w : Writer) : Prop :=
  (write q' w).1 = (write q w).1 ∧ (write q w).2.1.Twin (write q' w).2.1 ∧
    (write q' w).2.2 = (write q w).2.2

variable {q q' : Outbox}

theorem Twin.drain (h : q.Twin q') : q.drain.Twin q'.drain := by
  unfold Outbox.drain
  rw [h.queue]
  split_ifs
  · exact h
  · refine ⟨?_, by rw [h.scratch]⟩
    rw [Buffer.unread_reset, Buffer.unread_reset]

theorem Twin.resume_of (h : q.Twin q') (w : Writer)
    (hrest : ∀ x bytes queue w', w.write q.scratch.unread q.queue =
        (.taken (x :: bytes), queue, w') →
      ∀ q', Twin ⟨queue, q.scratch.consume (x :: bytes).length⟩ q' →
        TwinWrite writeOut ⟨queue, q.scratch.consume (x :: bytes).length⟩ q' w') :
    TwinWrite resume q q' w := by
  obtain ⟨b, hb, hbeside⟩ := Writer.write_beside q.scratch.unread h.queue w
  unfold TwinWrite resume
  rw [h.scratch, hbeside]
  generalize w.write q.scratch.unread q.queue = out at hb hrest ⊢
  obtain ⟨outcome, queue, w'⟩ := out
  match outcome with
  | .failed e | .waiting | .taken [] => exact ⟨rfl, ⟨hb, rfl⟩, rfl⟩
  | .taken (x :: bytes) => exact hrest x bytes queue w' rfl _ ⟨hb, rfl⟩

theorem Twin.writeOut (h : q.Twin q') (w : Writer) : TwinWrite Outbox.writeOut q q' w := by
  induction hn : q.pending + w.expected using Nat.strong_induction_on generalizing q q' w with
  | _ n ih =>
    subst hn
    have hdrain := h.drain
    unfold TwinWrite
    rw [writeOut_eq, writeOut_eq, hdrain.scratch]
    split_ifs with hempty
    · exact ⟨rfl, hdrain, rfl⟩
    · exact hdrain.resume_of w fun x bytes queue w' hwrite q' h' =>
        ih _ (pending_drain q ▸ pending_taken hempty hwrite) h' w' rfl

theorem Twin.resume (h : q.Twin q') (w : Writer) : TwinWrite Outbox.resume q q' w :=
  h.resume_of w fun _ _ _ w' _ _ h' => h'.writeOut w'

end Outbox

/-! ## Tasks -/

namespace Task

def Twin (t t' : Task) : Prop :=
  ∃ queue : Buffer, queue.unread = t.queue.unread ∧ t' = { t with queue }

variable {t t' : Task}

theorem Twin.refl (t : Task) : t.Twin t :=
  ⟨t.queue, rfl, rfl⟩

theorem Twin.same (h : t.Twin t') {α : Type} {f : Task → α}
    (hf : ∀ (t : Task) (queue : Buffer), f { t with queue } = f t) : f t' = f t := by
  obtain ⟨queue, _, rfl⟩ := h
  exact hf t queue

/-- What has nothing to do with the queue keeps twins. -/
theorem Twin.apart (h : t.Twin t') {f : Task → Task}
    (hf : ∀ (t : Task) (queue : Buffer), f { t with queue } = { f t with queue }) :
    (f t).Twin (f t') := by
  obtain ⟨queue, hqueue, rfl⟩ := h
  have hself : f t = { f t with queue := t.queue } := hf t t.queue
  have hkept : (f t).queue = t.queue := by rw [hself]
  exact ⟨queue, by rw [hkept, hqueue], hf t queue⟩

theorem Twin.shut (h : t.Twin t') : t.shut.Twin t'.shut := by
  obtain ⟨queue, _, rfl⟩ := h
  exact ⟨queue.reset, queue.unread_reset.trans t.queue.unread_reset.symm, rfl⟩

theorem Twin.start (h : t.Twin t') (now : Instant) :
    (t'.start now).1 = (t.start now).1 ∧ (t.start now).2.Twin (t'.start now).2 := by
  obtain ⟨queue, hqueue, rfl⟩ := h
  unfold Task.start
  split_ifs <;> exact ⟨rfl, queue, hqueue, rfl⟩

theorem Twin.reset (h : t.Twin t') :
    t'.reset.1 = t.reset.1 ∧ t.reset.2.Twin t'.reset.2 := by
  obtain ⟨queue, hqueue, rfl⟩ := h
  unfold Task.reset
  split_ifs
  · exact ⟨rfl, queue.reset, queue.unread_reset.trans t.queue.unread_reset.symm, rfl⟩
  · exact ⟨rfl, queue, hqueue, rfl⟩

theorem Twin.isOpen (h : t.Twin t') : t'.isOpen = t.isOpen :=
  h.same fun _ _ => rfl

theorem Twin.loops (h : t.Twin t') : t'.loops = t.loops :=
  h.same fun _ _ => rfl

theorem Twin.settings (h : t.Twin t') : t'.settings = t.settings :=
  h.same fun _ _ => rfl

theorem Twin.stop (h : t.Twin t') : t'.stop.1 = t.stop.1 ∧ t.stop.2.Twin t'.stop.2 := by
  obtain ⟨queue, hqueue, rfl⟩ := h
  by_cases hstops : t.isOpen ∧ ¬t.stopSignal ∧ t.loops.isSome
  · have hstop : t.stop = (true, { t with stopSignal := true }) := if_pos hstops
    have hstop' : ({ t with queue } : Task).stop = (true, { t with queue, stopSignal := true }) :=
      if_pos hstops
    rw [hstop, hstop']
    exact ⟨rfl, queue, hqueue, rfl⟩
  · have hstop : t.stop = (false, t) := if_neg hstops
    have hstop' : ({ t with queue } : Task).stop = (false, { t with queue }) := if_neg hstops
    rw [hstop, hstop']
    exact ⟨rfl, queue, hqueue, rfl⟩

theorem Twin.push (h : t.Twin t') (bytes : Bytes) : (t.push bytes).Twin (t'.push bytes) := by
  obtain ⟨queue, hqueue, rfl⟩ := h
  exact ⟨queue.append bytes, by rw [unread_push, Buffer.unread_append, hqueue], rfl⟩

theorem Twin.sendBytes (h : t.Twin t') (bytes : Bytes) :
    (t'.sendBytes bytes).1 = (t.sendBytes bytes).1 ∧
      (t.sendBytes bytes).2.Twin (t'.sendBytes bytes).2 := by
  have hsame := h.isOpen
  cases hopen : t.isOpen with
  | true =>
    rw [sendBytes_of_isOpen hopen, sendBytes_of_isOpen (hsame.trans hopen)]
    exact ⟨rfl, h.push bytes⟩
  | false =>
    rw [sendBytes_of_not_isOpen hopen, sendBytes_of_not_isOpen (hsame.trans hopen)]
    exact ⟨rfl, h⟩

theorem Twin.sendFrame (h : t.Twin t') (f : Frame) :
    (t'.sendFrame f).1 = (t.sendFrame f).1 ∧ (t.sendFrame f).2.Twin (t'.sendFrame f).2 := by
  unfold Task.sendFrame
  rw [h.settings]
  cases f.encode t.settings.frameLimit with
  | ok bytes => exact h.sendBytes bytes
  | error e => exact ⟨rfl, h⟩

theorem Twin.isStranded (h : t.Twin t') : t'.isStranded = t.isStranded :=
  h.same fun _ _ => rfl

theorem Twin.writeBy (h : t.Twin t')
    {write : Outbox → Writer → Except IoError Outbox.Progress × Outbox × Writer}
    (hwrite : ∀ {q q' : Outbox}, q.Twin q' → ∀ w, Outbox.TwinWrite write q q' w) (w : Writer) :
    (t'.writeBy write w).1 = (t.writeBy write w).1 ∧
      (t.writeBy write w).2.1.Twin (t'.writeBy write w).2.1 ∧
      (t'.writeBy write w).2.2 = (t.writeBy write w).2.2 := by
  obtain ⟨queue, hqueue, rfl⟩ := h
  obtain ⟨settings, phase, verified, stream, own, sendSignal, stopSignal, loops⟩ := t
  unfold Task.writeBy
  cases loops with
  | none => exact ⟨rfl, ⟨queue, hqueue, rfl⟩, rfl⟩
  | some loops =>
    have hboth : Outbox.Twin ⟨own, loops.scratch⟩ ⟨queue, loops.scratch⟩ := ⟨hqueue, rfl⟩
    obtain ⟨hresult, hleft, hwriter⟩ := hwrite hboth w
    dsimp only
    refine ⟨hresult, ⟨_, hleft.queue, ?_⟩, hwriter⟩
    rw [hleft.scratch, hresult]

theorem Twin.resumeWrite (h : t.Twin t') (w : Writer) :
    (t'.resumeWrite w).1 = (t.resumeWrite w).1 ∧
      (t.resumeWrite w).2.1.Twin (t'.resumeWrite w).2.1 ∧
      (t'.resumeWrite w).2.2 = (t.resumeWrite w).2.2 := by
  have hwriting : t'.isWriting = t.isWriting := h.same fun _ _ => rfl
  unfold Task.resumeWrite
  rw [hwriting]
  split_ifs
  · exact h.writeBy Outbox.Twin.resume w
  · exact ⟨rfl, h, rfl⟩

theorem Twin.writeQueued (h : t.Twin t') (w : Writer) :
    (t'.writeQueued w).1 = (t.writeQueued w).1 ∧
      (t.writeQueued w).2.1.Twin (t'.writeQueued w).2.1 ∧
      (t'.writeQueued w).2.2 = (t.writeQueued w).2.2 := by
  have hsignal : t'.sendSignal = t.sendSignal := h.same fun _ _ => rfl
  unfold Task.writeQueued
  rw [hsignal]
  split_ifs
  · exact (h.apart (f := fun t => { t with sendSignal := false }) fun _ _ => rfl).writeBy
      Outbox.Twin.writeOut w
  · exact ⟨rfl, h, rfl⟩

theorem Twin.writeAll (h : t.Twin t') (w : Writer) :
    (t'.writeAll w).1 = (t.writeAll w).1 ∧ (t.writeAll w).2.1.Twin (t'.writeAll w).2.1 ∧
      (t'.writeAll w).2.2 = (t.writeAll w).2.2 := by
  obtain ⟨hresult, htwin, hwriter⟩ := h.resumeWrite w
  rw [writeAll_eq, writeAll_eq, hresult, hwriter]
  split_ifs
  · exact htwin.writeQueued _
  · exact ⟨hresult, htwin, hwriter⟩

theorem Twin.runSendLoop (h : t.Twin t') (now : Instant) (w : Writer) :
    (t'.runSendLoop now w).1 = (t.runSendLoop now w).1 ∧
      (t.runSendLoop now w).2.1.Twin (t'.runSendLoop now w).2.1 ∧
      (t'.runSendLoop now w).2.2 = (t.runSendLoop now w).2.2 := by
  obtain ⟨hresult, htwin, hwriter⟩ := h.writeAll w
  match hwrote : (t.writeAll w).1 with
  | .error e =>
    rw [runSendLoop_of_error hwrote, runSendLoop_of_error (hresult.trans hwrote)]
    exact ⟨rfl, htwin, hwriter⟩
  | .ok .waiting =>
    rw [runSendLoop_of_waiting hwrote, runSendLoop_of_waiting (hresult.trans hwrote)]
    exact ⟨rfl, htwin, hwriter⟩
  | .ok .done =>
    have hdisarmed := htwin.apart (f := Task.disarm) fun _ _ => rfl
    have hstop : t'.stopSignal = t.stopSignal := h.same fun _ _ => rfl
    have hdue : t'.due now = t.due now := h.same fun _ _ => rfl
    have hverified : t'.verified = t.verified := h.same fun _ _ => rfl
    rw [runSendLoop_of_done hwrote, runSendLoop_of_done (hresult.trans hwrote), hstop, hdue,
      hverified]
    split_ifs
    · exact ⟨rfl, htwin, hwriter⟩
    · exact ⟨rfl, hdisarmed, hwriter⟩
    · exact ⟨rfl, htwin, hwriter⟩
    · exact ⟨rfl, htwin, hwriter⟩

end Task

end FrameLink
