import FrameLink.Session.Loops

/-!
# Links

A link is a session with the far end of its connection, the peer. Time and bytes move only when
the link runs: `turn` gives the send loop a turn, and `settle` goes on until nothing moves. First
the send loop runs, then what the peer sent is delivered and handled, then the send loop runs
again, and last the peer reads. Where callbacks have put the task on a new stream meanwhile, this is
done over for the new connection, whose peer has said nothing yet.
-/

namespace FrameLink

structure Peer where
  /-- All that the peer has sent since the last report. -/
  said : Bytes
  /-- What the peer has sent since the link last settled. -/
  unsent : Bytes
  /-- What is on its way to the task. -/
  inFlight : Bytes
  /-- Whether the peer has stopped sending. -/
  ended : Bool
  /-- Whether the peer has stopped reading. -/
  deaf : Bool
  /-- Whether the peer has gone away altogether. -/
  gone : Bool
  /-- While the peer reads nothing though it could: how much can still be written to it. -/
  room : Option Nat
  /-- What the task has written and the peer has not read. -/
  arriving : Bytes
  /-- What the peer has read since its last report. -/
  received : Bytes
  sawEof : Bool
deriving DecidableEq, Repr

namespace Peer

def fresh : Peer :=
  ⟨[], [], [], false, false, false, none, [], [], false⟩

inductive Event
  | send (bytes : Bytes)
  /-- Sends no more. -/
  | shutdown
  | close
  /-- Reads no more. -/
  | shutdownRead
  /-- Stays connected and reads nothing for now, so that only so many bytes fit on the way to it. -/
  | stall (room : Nat)
  /-- Reads again. -/
  | resume
deriving DecidableEq, Repr

/-- Nothing that was sent and not delivered yet outlives the end of sending. -/
def step (p : Peer) : Event → Peer
  | .send bytes => { p with said := p.said ++ bytes, unsent := p.unsent ++ bytes }
  | .shutdown => { p with ended := true, unsent := [] }
  | .close => { p with ended := true, gone := true, unsent := [], arriving := [] }
  | .shutdownRead => { p with deaf := true, sawEof := true, arriving := [] }
  | .stall room => { p with room := some room }
  | .resume => { p with room := none }

def writer (p : Peer) : Writer :=
  if p.deaf || p.gone then .broken else .ofRoom p.room

/-- What the task has written is on its way to the peer. -/
def hear (p : Peer) (written : Bytes) : Peer :=
  { p with arriving := p.arriving ++ written, room := p.room.map (· - written.length) }

/-- Puts what was sent on its way; a peer that stopped sending gets nothing more through. -/
def post (p : Peer) : Peer :=
  { p with inFlight := if p.ended then p.inFlight else p.inFlight ++ p.unsent, unsent := [] }

def read (p : Peer) (ended : Bool) : Peer :=
  if p.gone || p.room.isSome then p
  else { p with
    arriving := [], received := p.received ++ p.arriving, sawEof := p.sawEof || ended }

end Peer

structure Link (σ : Type) where
  session : Session σ
  peer : Peer
deriving DecidableEq, Repr

namespace Link

variable {σ : Type}

/-- The link after something that its session did. A new connection has a peer of its own. -/
def after (l : Link σ) (session : Session σ) (peer : Peer) : Link σ :=
  ⟨session, if session.resets = l.session.resets then peer else .fresh⟩

def turn (h : Handler σ) (now : Instant) (l : Link σ) : Link σ :=
  let (session, written) := l.session.flush h now l.peer.writer
  l.after session (l.peer.hear written)

/-- Delivers what is on its way to an open task. A closed one loses it, and an unstarted one lets
it wait. -/
def deliver (h : Handler σ) (now : Instant) (l : Link σ) : Link σ :=
  let peer := l.peer.post
  match l.session.task.phase with
  | .unstarted => { l with peer }
  | .closed => { l with peer := { peer with inFlight := [] } }
  | .opened =>
    let session := l.session.deliver h now peer.inFlight (if peer.ended then .ended else .silent)
    l.after session { peer with inFlight := [] }

def round (h : Handler σ) (now : Instant) (l : Link σ) : Link σ :=
  ((l.turn h now).deliver h now).turn h now

/-- Does something over and over, so many times at most, until the task stays on its stream. -/
def untilKept (f : Link σ → Link σ) : Nat → Link σ → Link σ
  | 0, l => l
  | n + 1, l =>
    let next := f l
    if next.session.resets = l.session.resets then next else untilKept f n next

/-- Does something until the task stays on its stream. Only a task with streams in reserve can leave
it. -/
def exhaust (f : Link σ → Link σ) (l : Link σ) : Link σ :=
  untilKept f (l.session.spares + 1) l

/-- Runs the link until nothing moves. -/
def settle (h : Handler σ) (now : Instant) (l : Link σ) : Link σ :=
  let l := l.exhaust (round h now)
  { l with peer := l.peer.read (l.session.task.phase == .closed) }

/-- The clock moves while the loops run, and deadlines that are reached fire. -/
def advance (h : Handler σ) (now next : Instant) (l : Link σ) : Link σ :=
  (l.exhaust (turn h now)).exhaust (turn h next)

end Link

end FrameLink
