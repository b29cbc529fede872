import FrameLink.Link.Run
import FrameLink.Registry

/-!
# Hubs

A hub holds named links, some of them registered under slots. A link may be registered more than
once, and a registered link stays when its task closes. The handler of a new link starts with the
default one of its states.
-/

namespace FrameLink

/-- Links in the order they came, with their names, and a registry of their positions. -/
structure Hub (σ : Type := Unit) where
  now : Instant
  links : List (String × Link σ)
  registry : Registry Nat
deriving DecidableEq, Repr

namespace Hub

variable {σ : Type}

def create? (now : Instant) (capacity : Nat) : Option (Hub σ) :=
  (Registry.create? capacity).map fun registry => ⟨now, [], registry⟩

def position? (hub : Hub σ) (name : String) : Option Nat :=
  (hub.links.zipIdx.reverse.find? fun entry => entry.1.1 == name).map Prod.snd

def name? (hub : Hub σ) (position : Nat) : Option String :=
  hub.links[position]?.map Prod.fst

def atLink {α : Type} (hub : Hub σ) (position : Nat) (f : Link σ → α × Link σ) :
    Option α × Hub σ :=
  match hub.links[position]? with
  | none => (none, hub)
  | some (name, l) =>
    let (result, l) := f l
    (some result, { hub with links := hub.links.set position (name, l) })

def mapLinks (hub : Hub σ) (f : Link σ → Link σ) : Hub σ :=
  { hub with links := hub.links.map fun (name, l) => (name, f l) }

inductive Event
  | create (name : String) (settings : Task.Settings) (starts : Bool)
  | insert (name : String)
  | get (slot : Nat)
  | remove (slot : Nat)
  | contains (slot : Nat)
  | list
  /-- A frame for every registered task. -/
  | broadcast (frame : Frame)
  | start (name : String)
  | advance (time : Nat)
  | rest
  | peer (name : String) (event : Peer.Event)
  | act (name : String) (action : Action)
deriving DecidableEq, Repr

inductive Outcome
  | silent
  | returned (value : Bool)
  | inserted (slot : Option Nat)
  | found (name : Option String)
  | listed (entries : List (Nat × String))
  | count (n : Nat)
  /-- The deadline of a start is no instant, or the buffers of a link are too large to exist. -/
  | overflow
deriving DecidableEq, Repr

def Outcome.ofLink : Option Link.Outcome → Outcome
  | some (.returned value) => .returned value
  | some .overflow => .overflow
  | _ => .silent

/-- Queues a frame on the task of each of the positions; counts those that accept it. -/
def broadcast (hub : Hub σ) (frame : Frame) : List Nat → Nat × Hub σ
  | [] => (0, hub)
  | position :: positions =>
    let (accepted, hub) := hub.atLink position fun l =>
      let (accepted, session) := l.session.actQuietly (.sendFrame frame)
      (accepted, { l with session })
    let (n, hub) := hub.broadcast frame positions
    (if accepted = some (some true) then n + 1 else n, hub)

def atName (hub : Hub σ) (name : String) (f : Link σ → Link.Outcome × Link σ) :
    Outcome × Hub σ :=
  match hub.position? name with
  | none => (.silent, hub)
  | some position =>
    let (outcome, hub) := hub.atLink position f
    (.ofLink outcome, hub)

def apply [Inhabited σ] (h : Handler σ) (hub : Hub σ) : Event → Outcome × Hub σ
  | .create name settings starts =>
    match Link.create? default settings with
    | none => (.overflow, hub)
    | some link =>
      let (outcome, link) := if starts then link.start h hub.now else (.silent, link)
      (if outcome = .overflow then .overflow else .silent,
        { hub with links := hub.links ++ [(name, link)] })
  | .insert name =>
    match hub.position? name with
    | none => (.silent, hub)
    | some position =>
      match hub.registry.place? fun _ => position with
      | some (slot, registry) => (.inserted (some slot), { hub with registry })
      | none => (.inserted none, hub)
  | .get slot => (.found ((hub.registry.get? slot).bind hub.name?), hub)
  | .remove slot =>
    (.found ((hub.registry.get? slot).bind hub.name?),
      { hub with registry := hub.registry.erase slot })
  | .contains slot => (.returned (hub.registry.get? slot).isSome, hub)
  | .list =>
    (.listed (hub.registry.toList.filterMap fun (slot, position) =>
      (hub.name? position).map (slot, ·)), hub)
  | .broadcast frame =>
    let (n, hub) := hub.broadcast frame (hub.registry.toList.map Prod.snd)
    (.count n, hub)
  | .start name => hub.atName name fun l => l.start h hub.now
  | .advance time =>
    (.silent, { hub.mapLinks (·.advance h hub.now (hub.now + time)) with now := hub.now + time })
  | .rest => (.silent, hub)
  | .peer name e => hub.atName name fun l => (.silent, { l with peer := l.peer.step e })
  | .act name a => hub.atName name fun l => l.act h hub.now a

/-- One event, and the settling of every link after it. -/
def step [Inhabited σ] (h : Handler σ) (settles : Bool) (hub : Hub σ) (e : Event) :
    Outcome × Hub σ :=
  let (outcome, hub) := (hub.mapLinks Link.reported).apply h e
  (outcome, if settles then hub.mapLinks (·.settle h hub.now) else hub)

end Hub

end FrameLink
