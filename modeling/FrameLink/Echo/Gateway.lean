import FrameLink.Address
import FrameLink.Echo.Service

/-!
# The echo service on a network

A gateway is a listener with the echo service behind it, used by plain clients on the same
machine. When the listener closes, the accept that is already waiting takes one more client.
-/

namespace FrameLink.Echo

/-- How many clients a listener still takes. -/
inductive Door
  | wide
  | lastCaller
  | shut
deriving DecidableEq, Repr

structure Gateway where
  network : Network
  door : Door
  closed : Bool
  world : World
deriving DecidableEq, Repr

namespace Gateway

inductive Event
  | connect (client : String)
  | send (client : String) (bytes : Bytes)
  /-- Waits for a number of bytes, or for the end. -/
  | expect (client : String) (count : Nat)
  | close (client : String)
  | awaitConnections (count : Nat)
  | apply (settings : Settings)
  | stopAll
  | bindAgain
  | closeListener
  | isClosed
deriving DecidableEq, Repr

inductive Outcome
  | done
  | failed (kind : IoErrorKind)
  | received (bytes : Bytes) (ended : Bool)
  | counted (connections echoed : Nat)
  | flag (value : Bool)
  /-- There is no such client, or what is waited for never comes. -/
  | impossible
deriving DecidableEq, Repr

def peer? (g : Gateway) (client : String) : Option Peer := do
  let n ← g.world.number? client
  let c ← g.world.clients[n]?
  some c.link.peer

def settle (g : Gateway) : Gateway :=
  { g with world := g.world.settle }

def withPeer (g : Gateway) (client : String) (e : Peer.Event) (outcome : Outcome) :
    Outcome × Gateway :=
  if (g.peer? client).isSome then
    (outcome, { g with world := g.world.peerStep client e }.settle)
  else (.impossible, g)

def letIn (g : Gateway) (client : String) (next : Door) : Outcome × Gateway :=
  match g.world.connect client with
  | (true, world) => (.done, { g with world, door := next }.settle)
  | (false, world) => (.impossible, { g with world })

def connect (g : Gateway) (client : String) : Outcome × Gateway :=
  match g.network, g.door with
  | .isolated, _ => (.failed .networkUnreachable, g)
  | .loopback, .wide => g.letIn client .wide
  | .loopback, .lastCaller => g.letIn client .shut
  | .loopback, .shut => (.failed .connectionRefused, g)

def expect (g : Gateway) (client : String) (count : Nat) : Outcome × Gateway :=
  match g.peer? client, g.world.number? client with
  | some p, some n =>
    let bytes := p.received.take count
    let complete := count ≤ p.received.length
    if complete || p.sawEof then
      (.received bytes !complete,
        { g with world.clients := g.world.clients.modify n fun c =>
            { c with link.peer.received := p.received.drop count } })
    else (.impossible, g)
  | _, _ => (.impossible, g)

def step (g : Gateway) : Event → Outcome × Gateway
  | .connect client => g.connect client
  | .send client bytes => g.withPeer client (.send bytes) (.flag true)
  | .expect client count => g.expect client count
  | .close client => g.withPeer client .close (.flag true)
  | .awaitConnections count =>
    if g.world.service.registry.size = count then
      (.counted count g.world.service.echoed, g)
    else (.impossible, g)
  | .apply settings => (.done, { g with world := g.world.apply settings })
  | .stopAll => (.done, { g with world := g.world.stopAll }.settle)
  | .bindAgain => (.failed .addrInUse, g)
  | .closeListener =>
    (.flag true, { g with closed := true, door := if g.door = .wide then .lastCaller else g.door })
  | .isClosed => (.flag g.closed, g)

end Gateway

end FrameLink.Echo
