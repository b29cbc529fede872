import FrameLink.Task

/-!
# Sessions

A session is a task together with the state that its callbacks work on. A handler answers a frame,
and the close of the task, with a list of actions; the session carries them out and records what
each of them returned. The handler is told of a close once for each time the task was opened,
whoever closes first, and the actions of that call find the task closed.

Among the actions a task can be reset, started and closed again. A close inside a callback runs the
callback of that close first and then goes on with the outer one. Every reset takes a stream that
the session has in reserve, so there is an end to it. A start that breaks off inside a callback
breaks off the callback and everything around it, and leaves the task stranded.
-/

namespace FrameLink

/-- The callbacks of a task over states of type `σ`. -/
structure Handler (σ : Type) where
  onFrame : σ → Task → Bytes → σ × List Action
  onClose : σ → Task → σ × List Action

inductive Entry
  /-- A frame was handled; its actions returned these results. -/
  | handled (frame : Bytes) (results : List (Option Bool))
  /-- One action of the callback on close returned this result. -/
  | closing (result : Option Bool)
deriving DecidableEq, Repr

/-- What has happened on a connection since its task was opened or the last report was made, in
order. The steps of a session write it, and none of them reads it. -/
structure Ledger where
  frames : List Bytes
  /-- The frames of an earlier connection that its receive loop went on with. -/
  strays : List Bytes
  /-- The bytes accepted for sending. -/
  accepted : Bytes
  written : Bytes
  /-- How the send loop ended, if it did. -/
  ending : Option Task.Exit
deriving DecidableEq, Repr

namespace Ledger

def blank : Ledger :=
  ⟨[], [], [], [], none⟩

def handle (l : Ledger) (current : Bool) (frame : Bytes) : Ledger :=
  if current then { l with frames := l.frames ++ [frame] }
  else { l with strays := l.strays ++ [frame] }

def offer (l : Ledger) (accepted : Bool) (bytes : Bytes) : Ledger :=
  if accepted then { l with accepted := l.accepted ++ bytes } else l

def write (l : Ledger) (bytes : Bytes) (ending : Option Task.Exit) : Ledger :=
  { l with written := l.written ++ bytes, ending }

end Ledger

structure Session (σ : Type) where
  state : σ
  task : Task
  /-- How often the task was opened. -/
  openings : Nat
  /-- How often a start succeeded. -/
  starts : Nat
  /-- How often the handler was told of a close. -/
  closes : Nat
  /-- How often the task was put on a new stream. -/
  resets : Nat
  /-- How often the task was verified since it was put on its stream. -/
  verifications : Nat
  /-- The streams that callbacks can still reset the task onto. -/
  spares : Nat
  /-- The callbacks that have run, latest first. -/
  entries : List Entry
  ledger : Ledger
deriving DecidableEq, Repr

namespace Session

variable {σ : Type}

def ofTask (state : σ) (task : Task) : Session σ :=
  { state, task, openings := 0, starts := 0, closes := 0, resets := 0, verifications := 0
    spares := 0, entries := [], ledger := .blank }

/-- An action that neither opens nor closes anything. -/
def actQuietly (s : Session σ) (a : Action) : Option Bool × Session σ :=
  match a with
  | .verify => (none, { s with task := s.task.verify, verifications := s.verifications + 1 })
  | .start | .reset | .close | .terminate => (none, s)
  | .stop => (some s.task.stop.1, { s with task := s.task.stop.2 })
  | .sendSignal => (none, { s with task := s.task.signalSend })
  | .sendBytes bytes =>
    let (accepted, task) := s.task.sendBytes bytes
    (some accepted, { s with task, ledger := s.ledger.offer accepted bytes })
  | .sendFrame frame =>
    let (accepted, task) := s.task.sendFrame frame
    (some accepted, { s with task, ledger := s.ledger.offer accepted frame.toBytes })

/-- Closes an open task; what its handler wants done about it is still to be carried out. -/
def shutDown (h : Handler σ) (s : Session σ) : List Action × Session σ :=
  if s.task.isOpen then
    let task := s.task.shut
    let (state, actions) := h.onClose s.state task
    (actions, { s with state, task, closes := s.closes + 1 })
  else ([], s)

def launch (now : Instant) (s : Session σ) : Task.Start × Session σ :=
  let (outcome, task) := s.task.start now
  (outcome,
    if outcome = .refused then s
    else { s with
      task, openings := s.openings + 1, ledger := .blank
      starts := if outcome = .started then s.starts + 1 else s.starts })

def reset (s : Session σ) : Bool × Session σ :=
  let (accepted, task) := s.task.reset
  (accepted, if accepted then { s with task, resets := s.resets + 1, verifications := 0 } else s)

def report (s : Session σ) (entry : Entry) : Session σ :=
  { s with entries := entry :: s.entries }

/-- One action, where an open task is closed in the way given. A task without a stream is closed
again by its start. -/
def actBy (close : Session σ → Session σ) (now : Instant) (s : Session σ) (a : Action) :
    Option Bool × Session σ :=
  match a with
  | .start =>
    match s.launch now with
    | (.started, s) => (some true, s)
    | (.refused, s) => (some false, s)
    | (.unconnected, s) => (some false, close s)
    | (.overflow, s) => (none, s)
  | .reset =>
    match s.spares with
    | 0 => (none, s)
    | spares + 1 =>
      let (accepted, s) := { s with spares }.reset
      (some accepted, s)
  | .close | .terminate => (none, close s)
  | a => s.actQuietly a

/-- One action of the callback on close, unless the callback was broken off before. -/
def actOnClose (close : Session σ → Session σ) (now : Instant) (s : Session σ) (a : Action) :
    Session σ :=
  if s.task.isStranded then s
  else
    let (result, s) := s.actBy close now a
    if s.task.isStranded then s else s.report (.closing result)

/-- How often the task can be closed before its streams are used up. -/
def lives (s : Session σ) : Nat :=
  s.spares + if s.task.phase = .closed then 0 else 1

/-- Closes an open task and carries out what its handler answers, with so many closes inside one
another. -/
def closeWithin (h : Handler σ) (now : Instant) : Nat → Session σ → Session σ
  | 0, s => s
  | depth + 1, s =>
    let (actions, s) := s.shutDown h
    actions.foldl (actOnClose (closeWithin h now depth) now) s

def close (h : Handler σ) (now : Instant) (s : Session σ) : Session σ :=
  s.closeWithin h now s.lives

/-- One action with all that comes of it. -/
def act (h : Handler σ) (now : Instant) (s : Session σ) (a : Action) : Option Bool × Session σ :=
  s.actBy (close h now) now a

def start (h : Handler σ) (now : Instant) (s : Session σ) : Task.Start × Session σ :=
  ((s.task.start now).1, (s.act h now .start).2)

/-- The actions of a callback, up to one that breaks it off. -/
def actAll (h : Handler σ) (now : Instant) (s : Session σ) :
    List Action → List (Option Bool) × Session σ
  | [] => ([], s)
  | a :: actions =>
    let (result, s) := s.act h now a
    if s.task.isStranded then ([], s)
    else
      let (results, s) := s.actAll h now actions
      (result :: results, s)

/-- Hands a frame to the handler of an open task; answers whether the task is open still. The
receive loop that hands it over began when the task had been reset so many times. -/
def handle (h : Handler σ) (now : Instant) (resets : Nat) (s : Session σ) (frame : Bytes) :
    Session σ × Bool :=
  if s.task.isOpen then
    let (state, actions) := h.onFrame s.state s.task frame
    let ledger := s.ledger.handle (s.resets == resets) frame
    let (results, s) := { s with state, ledger }.actAll h now actions
    if s.task.isStranded then (s, false)
    else (s.report (.handled frame results), s.task.isOpen)
  else (s, false)

end Session

end FrameLink
