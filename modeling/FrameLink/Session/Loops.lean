import FrameLink.Session
import FrameLink.Stream.Receive

/-!
# The loops of an open task

`deliver` is the receive loop: it handles all bytes that have arrived, stopping only when the task
is closed, and closes the task at the end of the stream or at a violation of the protocol. It looks
at nothing but whether the task is open. Where a callback has closed the task, put it on a new
stream and started it again, the loop goes on with the bytes of the old stream until it has to wait,
and a close behind it is one of the new connection.

`flush` is the send loop, run until it waits. Data queued before a stop is written before the stop
takes effect.
-/

namespace FrameLink.Session

variable {σ : Type}

/-- The receive loop on bytes that have arrived, with more to come or at the end of them. A loop
that waits is aborted there if its task was put on a new stream, and one that was broken off closes
nothing. -/
def deliver (h : Handler σ) (now : Instant) (arrived : Bytes) (horizon : Horizon)
    (s : Session σ) : Session σ :=
  match s.task.loops with
  | none => s
  | some loops =>
    let arrivals := if arrived.isEmpty then [] else [.chunk arrived]
    let out := receive s.task.settings.frameLimit (handle h now s.resets) s loops.inbound
      ⟨arrivals, horizon, 0⟩
    match out.ending with
    | .waiting =>
      if out.state.resets = s.resets then
        { out.state with task := out.state.task.setInbound out.buffer }
      else out.state
    | _ => if out.state.task.isStranded then out.state else out.state.close h now

/-- The send loop until it waits, and the bytes it wrote. Where it ends, the task is closed. -/
def flush (h : Handler σ) (now : Instant) (w : Writer) (s : Session σ) : Session σ × Bytes :=
  if s.task.loops.isNone then (s, [])
  else
    let (ending, task, w) := s.task.runSendLoop now w
    let s := { s with task, ledger := s.ledger.write w.taken ending }
    (if ending.isSome then s.close h now else s, w.taken)

end FrameLink.Session
