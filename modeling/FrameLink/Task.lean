import FrameLink.Outbox
import FrameLink.TaskError

/-!
# Connection tasks

A task is one connection seen from this side. It goes from unstarted to open to closed, and a
closed task that was verified can be reset onto a new stream:

    unstarted --start--> open --close--> closed --reset--> unstarted

While a task is open two loops run for it. The receive loop owns the buffer of arriving bytes.
The send loop waits for a send signal, a stop signal or the verification deadline. Each signal is
one bit: a pending signal absorbs another one.

Everything here is one step of one task. What its callbacks do is in `FrameLink.Session`, and what
the loops do is in `FrameLink.Session.Loops`.
-/

namespace FrameLink

/-- Time in milliseconds. -/
abbrev Instant := Nat

/-- No instant lies at or behind this one: its seconds leave a signed machine word. -/
def timeBound : Instant := 1 <<< 63 * 1000

inductive Phase
  | unstarted
  | opened
  | closed
deriving DecidableEq, Repr

namespace Task

structure Settings where
  /-- The limit on the length of frames in both directions. -/
  frameLimit : Nat
  /-- How long a task may stay unverified. -/
  verifyTimeout : Nat
  /-- The size that the task's buffers start with. -/
  bufferSize : Nat
deriving DecidableEq, Repr

def Settings.default : Settings :=
  ⟨defaultFrameLimit, 30000, Buffer.defaultSize⟩

/-- What the two loops of an open task hold. -/
structure Loops where
  inbound : Buffer
  /-- What the send loop has taken from the queue and not written. -/
  scratch : Buffer
  /-- Whether the send loop stands in a write that has to wait. -/
  writing : Bool
  deadline : Instant
  /-- Whether the deadline is still to fire. -/
  armed : Bool
deriving DecidableEq, Repr

end Task

structure Task where
  settings : Task.Settings
  phase : Phase
  verified : Bool
  /-- Whether a stream, with both its signals, is there for the loops to take. -/
  stream : Bool
  queue : Buffer
  sendSignal : Bool
  stopSignal : Bool
  loops : Option Task.Loops
deriving DecidableEq, Repr

namespace Task

def ofSettings (settings : Settings) : Task where
  settings := settings
  phase := .unstarted
  verified := false
  stream := true
  queue := Buffer.withCapacity settings.bufferSize
  sendSignal := false
  stopSignal := false
  loops := none

def isOpen (t : Task) : Bool :=
  t.phase == .opened

/-- An open task without loops is what a start that broke off leaves. -/
def isStranded (t : Task) : Bool :=
  t.isOpen && t.loops.isNone

def isWriting (t : Task) : Bool :=
  t.loops.any Loops.writing

inductive Start
  | started
  | refused
  /-- There is no stream to take. The task is left open, to be closed at once. -/
  | unconnected
  /-- The deadline is no instant. The task is left open, without loops. -/
  | overflow
deriving DecidableEq, Repr

def start (now : Instant) (t : Task) : Start × Task :=
  if t.phase ≠ .unstarted then (.refused, t)
  else if ¬t.stream then (.unconnected, { t with phase := .opened })
  else if timeBound ≤ now + t.settings.verifyTimeout then
    (.overflow, { t with phase := .opened, stream := false })
  else
    (.started,
      { t with
        phase := .opened
        stream := false
        loops := some
          { inbound := Buffer.withCapacity t.settings.bufferSize
            scratch := Buffer.withCapacity t.settings.bufferSize
            writing := false
            deadline := now + t.settings.verifyTimeout
            armed := true } })

/-- An open task becomes closed: its loops end, what is queued is dropped, and a stop signal is
left behind. -/
def shut (t : Task) : Task :=
  { t with phase := .closed, queue := t.queue.reset, stopSignal := true, loops := none }

/-- Puts a closed, verified task on a new stream. The task stays verified. -/
def reset (t : Task) : Bool × Task :=
  if t.phase = .closed ∧ t.verified then
    (true, { t with
      phase := .unstarted, stream := true, queue := t.queue.reset
      sendSignal := false, stopSignal := false })
  else (false, t)

/-- Asks the send loop to stop; refused if the task is not open, a stop is pending, or there is no
loop to take it. -/
def stop (t : Task) : Bool × Task :=
  if t.isOpen ∧ ¬t.stopSignal ∧ t.loops.isSome then (true, { t with stopSignal := true })
  else (false, t)

def signalSend (t : Task) : Task :=
  { t with sendSignal := true }

def sendBytes (t : Task) (bytes : Bytes) : Bool × Task :=
  if t.isOpen then (true, { t with queue := t.queue.append bytes }.signalSend) else (false, t)

/-- Queues a frame on an open task, if the frame obeys the limit. -/
def sendFrame (t : Task) (f : Frame) : Bool × Task :=
  match f.encode t.settings.frameLimit with
  | .ok bytes => t.sendBytes bytes
  | .error _ => (false, t)

def verify (t : Task) : Task :=
  { t with verified := true }

/-! ## What the loops do to the task -/

inductive Exit
  | stopped
  | failed (error : TaskError)
deriving DecidableEq, Repr

def setInbound (t : Task) (inbound : Buffer) : Task :=
  { t with loops := t.loops.map ({ · with inbound }) }

/-- The deadline fires, which happens once. -/
def disarm (t : Task) : Task :=
  { t with loops := t.loops.map ({ · with armed := false }) }

def due (now : Instant) (t : Task) : Bool :=
  t.loops.any fun loops => loops.armed && decide (loops.deadline ≤ now)

/-- The send loop writes from the queue and its scratch buffer. It stands in the write where that
has to wait. -/
def writeBy (write : Outbox → Writer → Except IoError Outbox.Progress × Outbox × Writer)
    (w : Writer) (t : Task) : Except IoError Outbox.Progress × Task × Writer :=
  match t.loops with
  | none => (.ok .done, t, w)
  | some loops =>
    let (result, q, w) := write ⟨t.queue, loops.scratch⟩ w
    (result, { t with
      queue := q.queue
      loops := some { loops with
        scratch := q.scratch, writing := result matches .ok .waiting } }, w)

def resumeWrite (w : Writer) (t : Task) : Except IoError Outbox.Progress × Task × Writer :=
  if t.isWriting then t.writeBy Outbox.resume w else (.ok .done, t, w)

/-- The send loop when it is woken: everything queued is written. -/
def writeQueued (w : Writer) (t : Task) : Except IoError Outbox.Progress × Task × Writer :=
  if t.sendSignal then { t with sendSignal := false }.writeBy Outbox.writeOut w
  else (.ok .done, t, w)

/-- The send loop up to where nothing is left to write, or a write has to wait. -/
def writeAll (w : Writer) (t : Task) : Except IoError Outbox.Progress × Task × Writer :=
  match t.resumeWrite w with
  | (.ok .done, t, w) => t.writeQueued w
  | stuck => stuck

/-- The send loop until it waits or ends. It prefers queued data, then a stop, then the deadline;
while it stands in a write it looks at none of them. -/
def runSendLoop (now : Instant) (w : Writer) (t : Task) : Option Exit × Task × Writer :=
  match t.writeAll w with
  | (.error e, t, w) => (some (.failed (.io e)), t, w)
  | (.ok .waiting, t, w) => (none, t, w)
  | (.ok .done, t, w) =>
    if t.stopSignal then (some .stopped, t, w)
    else if t.due now then
      if t.verified then (none, t.disarm, w) else (some (.failed .verifyTimeout), t, w)
    else (none, t, w)

end Task

inductive Action
  | start
  /-- Resets the task onto a new stream. -/
  | reset
  | verify
  | close
  /-- The same as `close`. -/
  | terminate
  | stop
  | sendSignal
  | sendBytes (bytes : Bytes)
  | sendFrame (frame : Frame)
deriving DecidableEq, Repr

def Action.isQuiet : Action → Bool
  | .start | .reset | .close | .terminate => false
  | .verify | .stop | .sendSignal | .sendBytes _ | .sendFrame _ => true

end FrameLink
