import FrameLink.Buffer
import FrameLink.IoError

/-!
# Writing to a stream

A writer is the rest of a stream as the answers it gives to writes. Before each answer other
producers may have queued more bytes, so a write goes on beside a queue. Behind the last answer a
stream takes what there is room for. Where there is no room left a write has to wait.
-/

namespace FrameLink

inductive Acceptance
  | upTo (count : Nat)
  | pending
  | failure (error : IoError)
deriving DecidableEq, Repr

/-- One answer, and the bytes that arrive in the queue just before it. -/
structure WriteCall where
  queued : Bytes
  answer : Acceptance
deriving DecidableEq, Repr

structure Writer where
  calls : List WriteCall
  /-- How much the stream takes behind the last answer, if there is a bound to it. -/
  room : Option Nat
  flushFailure : Option IoError
  /-- How many bytes each write offered and which of them were taken, latest first. -/
  writes : List (Nat × Bytes)
  flushes : Nat
deriving DecidableEq, Repr

namespace Writer

def ofCalls (calls : List WriteCall) (flushFailure : Option IoError) : Writer :=
  ⟨calls, none, flushFailure, [], 0⟩

/-- The stream whose far end has room for so many bytes, or reads all of them. -/
def ofRoom (room : Option Nat) : Writer :=
  ⟨[], room, none, [], 0⟩

def willing : Writer :=
  ofRoom none

/-- The stream whose far end reads no more. -/
def broken : Writer :=
  ofCalls [⟨[], .failure ⟨.brokenPipe, "Broken pipe (os error 32)"⟩⟩] none

def taken (w : Writer) : Bytes :=
  w.writes.foldl (fun after write => write.2 ++ after) []

/-- The bytes that other producers still have to queue. -/
def expected (w : Writer) : Nat :=
  w.calls.foldr (fun call n => call.queued.length + n) 0

inductive Outcome
  | taken (bytes : Bytes)
  | failed (error : IoError)
  | waiting
deriving DecidableEq, Repr

/-- Offers bytes once, polling on where the stream is not ready. -/
def write (offered : Bytes) (queue : Buffer) (w : Writer) : Outcome × Buffer × Writer :=
  match w with
  | ⟨[], none, flushFailure, writes, flushes⟩ =>
    (.taken offered, queue, ⟨[], none, flushFailure, (offered.length, offered) :: writes, flushes⟩)
  | ⟨[], some 0, flushFailure, writes, flushes⟩ =>
    (.waiting, queue, ⟨[], some 0, flushFailure, writes, flushes⟩)
  | ⟨[], some (n + 1), flushFailure, writes, flushes⟩ =>
    let bytes := offered.take (n + 1)
    (.taken bytes, queue, ⟨[], some (n + 1 - bytes.length), flushFailure,
      (offered.length, bytes) :: writes, flushes⟩)
  | ⟨⟨queued, .pending⟩ :: calls, room, flushFailure, writes, flushes⟩ =>
    write offered (queue.append queued) ⟨calls, room, flushFailure, writes, flushes⟩
  | ⟨⟨queued, .failure e⟩ :: calls, room, flushFailure, writes, flushes⟩ =>
    (.failed e, queue.append queued, ⟨calls, room, flushFailure, writes, flushes⟩)
  | ⟨⟨queued, .upTo count⟩ :: calls, room, flushFailure, writes, flushes⟩ =>
    let bytes := offered.take count
    (.taken bytes, queue.append queued,
      ⟨calls, room, flushFailure, (offered.length, bytes) :: writes, flushes⟩)
termination_by w.calls.length

def flush (w : Writer) : Except IoError Unit × Writer :=
  (match w.flushFailure with
    | some e => .error e
    | none => .ok (),
  { w with flushes := w.flushes + 1 })

theorem write_queued (offered : Bytes) (queue : Buffer) (w : Writer) :
    (w.write offered queue).2.1.unread.length + (w.write offered queue).2.2.expected =
      queue.unread.length + w.expected := by
  fun_induction write offered queue w with
  | case1 | case2 | case3 => rfl
  | case4 queue queued calls room flushFailure writes flushes ih =>
    rw [ih, Buffer.length_unread_append]
    simp only [expected, List.foldr_cons]
    omega
  | case5 | case6 =>
    rw [Buffer.length_unread_append]
    simp only [expected, List.foldr_cons]
    omega

end Writer

end FrameLink
