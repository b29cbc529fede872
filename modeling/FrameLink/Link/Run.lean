import FrameLink.Link

/-!
# Runs of one link

Everything that can happen to a link from outside, one event after the other. Unless it is asked
not to, the link settles after each event.
-/

namespace FrameLink.Link

variable {σ : Type}

inductive Event
  | start
  /-- Resets the task onto a new connection. -/
  | reset
  | advance (time : Nat)
  | rest
  | peer (event : Peer.Event)
  | act (action : Action)
  /-- Puts a stream in reserve for callbacks. -/
  | supply
deriving DecidableEq, Repr

inductive Outcome
  | silent
  | returned (value : Bool)
  /-- The deadline of a start is no instant. -/
  | overflow
deriving DecidableEq, Repr

def ofSettings (state : σ) (settings : Task.Settings) : Link σ :=
  ⟨.ofTask state (Task.ofSettings settings), Peer.fresh⟩

def create? (state : σ) (settings : Task.Settings) : Option (Link σ) :=
  if storeBound < settings.bufferSize then none else some (ofSettings state settings)

def setTask (l : Link σ) (task : Task) : Link σ :=
  { l with session := { l.session with task } }

def start (h : Handler σ) (now : Instant) (l : Link σ) : Outcome × Link σ :=
  let (outcome, session) := l.session.start h now
  (match outcome with
    | .started => .returned true
    | .refused | .unconnected => .returned false
    | .overflow => .overflow,
  l.after session l.peer)

/-- A reset from outside brings its stream along. -/
def reset (l : Link σ) : Outcome × Link σ :=
  let (accepted, session) := l.session.reset
  (.returned accepted, l.after session l.peer)

def act (h : Handler σ) (now : Instant) (l : Link σ) (a : Action) : Outcome × Link σ :=
  match a with
  | .start => l.start h now
  | .reset => l.reset
  | a =>
    let (result, session) := l.session.act h now a
    (result.elim .silent .returned, l.after session l.peer)

def supply (l : Link σ) : Link σ :=
  { l with session := { l.session with spares := l.session.spares + 1 } }

/-- Puts aside what the last step reported. -/
def reported (l : Link σ) : Link σ :=
  ⟨{ l.session with entries := [], ledger := .blank },
    { l.peer with said := [], received := [] }⟩

structure Run (σ : Type) where
  now : Instant
  link : Link σ
deriving DecidableEq, Repr

namespace Run

def apply (h : Handler σ) (r : Run σ) : Event → Outcome × Run σ
  | .start => ((r.link.start h r.now).1, { r with link := (r.link.start h r.now).2 })
  | .reset => (r.link.reset.1, { r with link := r.link.reset.2 })
  | .advance time => (.silent, ⟨r.now + time, r.link.advance h r.now (r.now + time)⟩)
  | .rest => (.silent, r)
  | .peer e => (.silent, { r with link := { r.link with peer := r.link.peer.step e } })
  | .act a => ((r.link.act h r.now a).1, { r with link := (r.link.act h r.now a).2 })
  | .supply => (.silent, { r with link := r.link.supply })

def settle (h : Handler σ) (r : Run σ) : Run σ :=
  { r with link := r.link.settle h r.now }

/-- One event, and the settling after it. -/
def happen (h : Handler σ) (settles : Bool) (r : Run σ) (e : Event) : Outcome × Run σ :=
  let (outcome, r) := r.apply h e
  (outcome, if settles then r.settle h else r)

/-- One event that is reported by itself: what earlier ones reported is put aside. -/
def step (h : Handler σ) (settles : Bool) (r : Run σ) (e : Event) : Outcome × Run σ :=
  { r with link := r.link.reported }.happen h settles e

def steps (h : Handler σ) (r : Run σ) (events : List (Bool × Event)) : Run σ :=
  events.foldl (fun r e => (r.step h e.1 e.2).2) r

end Run

end FrameLink.Link
