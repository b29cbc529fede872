import FrameLink.Stream.Writer

/-!
# Outboxes

Producers append to the queue of an outbox, and the send loop moves what is queued into a scratch
buffer of its own before it writes. `writeOut` writes until both are empty and then flushes. Where a
write has to wait it stands still, and `resume` goes on from there. A wait and a failure leave every
byte that was not taken where it was, so going on neither repeats nor skips one.
-/

namespace FrameLink

/-- The bytes on their way out: queued by producers, or already moved to the scratch buffer. -/
structure Outbox where
  queue : Buffer
  scratch : Buffer
deriving DecidableEq, Repr

namespace Outbox

def push (q : Outbox) (bytes : Bytes) : Outbox :=
  { q with queue := q.queue.append bytes }

/-- Moves everything queued to the scratch buffer. -/
def drain (q : Outbox) : Outbox :=
  if q.queue.unread.isEmpty then q
  else ⟨q.queue.reset, q.scratch.append q.queue.unread⟩

def clear (q : Outbox) : Outbox :=
  { q with queue := q.queue.reset }

def consume (q : Outbox) (n : Nat) : Outbox :=
  { q with scratch := q.scratch.consume n }

def pending (q : Outbox) : Nat :=
  q.queue.unread.length + q.scratch.unread.length

theorem pending_drain (q : Outbox) : q.drain.pending = q.pending := by
  unfold drain
  split
  · rfl
  · simp [pending, Buffer.length_unread_append, Buffer.unread_reset, Nat.add_comm]

/-- A write that takes nothing is a failure. -/
def wroteNothing : IoError :=
  ⟨.writeZero, "write returned 0"⟩

inductive Progress
  | done
  /-- The stream takes nothing for now, and the write in hand has to wait. -/
  | waiting
deriving DecidableEq, Repr

theorem pending_taken {q : Outbox} {w after : Writer} {queue : Buffer} {x : UInt8} {bytes : Bytes}
    (hoffered : q.scratch.unread ≠ [])
    (hwrite : w.write q.scratch.unread q.queue = (.taken (x :: bytes), queue, after)) :
    pending ⟨queue, q.scratch.consume (x :: bytes).length⟩ + after.expected <
      q.pending + w.expected := by
  have hqueued := Writer.write_queued q.scratch.unread q.queue w
  have hscratch := Buffer.length_unread_consume q.scratch (x :: bytes).length
  have hpos : q.scratch.unread.length ≠ 0 := by simpa using hoffered
  rw [hwrite] at hqueued
  simp only [pending, List.length_cons] at hqueued hscratch ⊢
  omega

/-- Writes until nothing is left to send, and flushes. -/
def writeOut (q : Outbox) (w : Writer) : Except IoError Progress × Outbox × Writer :=
  let drained := q.drain
  if _hempty : drained.scratch.unread.isEmpty then
    let (result, w) := w.flush
    (result.map fun _ => .done, drained, w)
  else
    match _hw : w.write drained.scratch.unread drained.queue with
    | (.failed e, queue, after) => (.error e, { drained with queue }, after)
    | (.waiting, queue, after) => (.ok .waiting, { drained with queue }, after)
    | (.taken [], queue, after) => (.error wroteNothing, { drained with queue }, after)
    | (.taken (x :: bytes), queue, after) =>
      writeOut ⟨queue, drained.scratch.consume (x :: bytes).length⟩ after
termination_by q.pending + w.expected
decreasing_by
  rw [← pending_drain q]
  exact pending_taken (by simpa using _hempty) _hw

/-- Goes on with a write that had to wait: the stream is offered the same bytes again, before the
queue is looked at. -/
def resume (q : Outbox) (w : Writer) : Except IoError Progress × Outbox × Writer :=
  match w.write q.scratch.unread q.queue with
  | (.failed e, queue, after) => (.error e, { q with queue }, after)
  | (.waiting, queue, after) => (.ok .waiting, { q with queue }, after)
  | (.taken [], queue, after) => (.error wroteNothing, { q with queue }, after)
  | (.taken (x :: bytes), queue, after) =>
    writeOut ⟨queue, q.scratch.consume (x :: bytes).length⟩ after

end Outbox

end FrameLink
