import FrameLink.Echo.Command
import FrameLink.Link.Run
import FrameLink.Registry

/-!
# The echo service

Every connection of the service shares its registry, its settings and its counter of echoed
frames. A hello is accepted if no token is set or if it brings the token, and verifies its
connection; any other hello is denied and ends it. Payloads come back on verified connections
only. A connection gives its slot back when it closes.
-/

namespace FrameLink.Echo

/-- What a reload can change. -/
structure Settings where
  token : Option Bytes
  task : Task.Settings
deriving DecidableEq, Repr

structure Service where
  /-- The numbers of the clients that are registered. -/
  registry : Registry Nat
  settings : Settings
  /-- A counter of one word, which wraps around. -/
  echoed : Nat
deriving DecidableEq, Repr

namespace Service

/-- A service that nobody has used, unless its registry is too large. -/
def create? (settings : Settings) (capacity : Nat) : Option Service :=
  (Registry.create? capacity).map fun registry => ⟨registry, settings, 0⟩

def accepts (s : Service) (token : Bytes) : Bool :=
  s.settings.token.all (· == token)

def respond (s : Service) (t : Task) : Command → Service × List Action
  | .hello token =>
    (s, if s.accepts token then [.verify, .sendFrame welcome]
      else [.sendFrame denial, .stop])
  | .echo payload =>
    if t.verified then
      ({ s with echoed := (s.echoed + 1) % wordBound }, [.sendFrame ⟨echoFlag, payload⟩])
    else (s, [])
  | .quit => (s, [.stop])

def handler (slot : Nat) : Handler Service where
  onFrame s t frame :=
    match parse frame with
    | .command c => s.respond t c
    | .malformed | .unknown _ => (s, [])
  onClose s _ := ({ s with registry := s.registry.erase slot }, [])

end Service

/-- A connection that was accepted into a slot, or refused. -/
structure Client where
  name : String
  slot : Option Nat
  link : Link Unit
deriving DecidableEq, Repr

/-- The service with the clients that ever came, oldest first. -/
structure World where
  now : Instant
  service : Service
  clients : List Client
deriving DecidableEq, Repr

namespace Client

def ofSettings (name : String) (slot : Nat) (settings : Task.Settings) : Client :=
  ⟨name, some slot, Link.ofSettings () settings⟩

/-- Runs an operation on the link of a client, whose callbacks work on the service. -/
def run (f : Handler Service → Link Service → Link Service) (s : Service) (c : Client) :
    Service × Client :=
  let l := f (Service.handler (c.slot.getD 0)) ⟨{ c.link.session with state := s }, c.link.peer⟩
  (l.session.state, { c with link := ⟨{ l.session with state := () }, l.peer⟩ })

/-- A connection that is dropped as it comes. -/
def refused (name : String) (settings : Task.Settings) : Client :=
  ⟨name, none, (Link.ofSettings () settings).setTask (Task.ofSettings settings).shut⟩

end Client

namespace World

def ofService (now : Instant) (service : Service) : World :=
  ⟨now, service, []⟩

def number? (w : World) (name : String) : Option Nat :=
  (w.clients.zipIdx.reverse.find? fun entry => entry.1.name == name).map Prod.snd

def runAll (f : Handler Service → Link Service → Link Service) (w : World) : World :=
  let (service, clients) := w.clients.foldl (fun (service, clients) c =>
    let (service, c) := c.run f service
    (service, c :: clients)) (w.service, [])
  { w with service, clients := clients.reverse }

def settle (w : World) : World :=
  w.runAll fun h l => l.settle h w.now

def advance (w : World) (time : Nat) : World :=
  { w.runAll (fun h l => l.advance h w.now (w.now + time)) with now := w.now + time }

def peerStep (w : World) (name : String) (e : Peer.Event) : World :=
  match w.number? name with
  | none => w
  | some n =>
    { w with clients := w.clients.modify n fun c =>
        { c with link := { c.link with peer := c.link.peer.step e } } }

/-- A new connection is registered and started, or refused if the registry is full. The answer
tells whether its deadline is an instant. -/
def accept (w : World) (name : String) : Bool × World :=
  let settings := w.service.settings.task
  match w.service.registry.place? fun _ => w.clients.length with
  | none => (true, { w with clients := w.clients ++ [.refused name settings] })
  | some (slot, registry) =>
    let unstarted := Client.ofSettings name slot settings
    let (service, c) :=
      unstarted.run (fun h l => (l.start h w.now).2) { w.service with registry }
    ((unstarted.link.session.task.start w.now).1 != .overflow,
      { w with service, clients := w.clients ++ [c] })

/-- A new client connects; an older one of its name goes away. -/
def connect (w : World) (name : String) : Bool × World :=
  (w.peerStep name .close).accept name

def apply (w : World) (settings : Settings) : World :=
  { w with service := { w.service with settings } }

def stopAll (w : World) : World :=
  let stop (clients : List Client) (n : Nat) : List Client :=
    clients.modify n fun c => { c with link := c.link.setTask c.link.session.task.stop.2 }
  { w with clients := (w.service.registry.toList.map Prod.snd).foldl stop w.clients }

def reported (w : World) : World :=
  { w with clients := w.clients.map fun c => { c with link := c.link.reported } }

end World

end FrameLink.Echo
