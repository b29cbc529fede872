/-!
# The life of a server

A run calls the hook `init`, then `loop` until the server is closed, and `finalize` last. A reload
that was requested is served by the hook `reload` just before the next `loop`. Hooks may close the
server, request reloads, raise signals or panic, and calls of the handle and signals may arrive
between them at any moment. A panic ends the run, but for `finalize`.
-/

namespace FrameLink.Server

/-- The two requests a server takes. Each is one bit, so that a pending one absorbs another. -/
structure Flags where
  closed : Bool
  reload : Bool
deriving DecidableEq, Repr

inductive Request
  | close
  | reload
deriving DecidableEq, Repr

def Flags.note (f : Flags) : Request → Flags
  | .close => { f with closed := true }
  | .reload => { f with reload := true }

inductive Signal
  | hangup
  | interrupt
  | quit
  | abort
  | terminate
  | pipe
deriving DecidableEq, Repr

/-- What a signal requests; a broken pipe requests nothing. -/
def Signal.request? : Signal → Option Request
  | .hangup => some .reload
  | .interrupt | .quit | .abort | .terminate => some .close
  | .pipe => none

/-- What can reach a server from outside: a call of its handle, or a signal. -/
inductive Arrival
  | request (request : Request)
  | signal (signal : Signal)
deriving DecidableEq, Repr

def Arrival.request? : Arrival → Option Request
  | .request r => some r
  | .signal s => s.request?

inductive Effect
  | request (request : Request)
  | signal (signal : Signal)
  | panic
deriving DecidableEq, Repr

/-- What a hook does, and what it returns if it comes to its end. -/
structure Hook where
  effects : List Effect
  result : Bool
deriving DecidableEq, Repr

/-- The flags after a hook, and its result unless it panicked. -/
def Hook.run (result : Bool) (f : Flags) : List Effect → Flags × Option Bool
  | [] => (f, some result)
  | .panic :: _ => (f, none)
  | .request r :: effects => run result (f.note r) effects
  | .signal s :: effects => run result ((s.request?.map f.note).getD f) effects

inductive HookName
  | init
  | loop
  | reload
  | finalize
deriving DecidableEq, Repr

inductive Mark
  /-- A hook started with these flags. -/
  | started (name : HookName) (flags : Flags)
  /-- The loop was called once more than there are hooks for it. -/
  | exhausted
deriving DecidableEq, Repr

/-- The hooks of one run. Those of the loop and of reloads are used up one after the other. Where
no hook is left, the loop closes the server and a reload does nothing. -/
structure Script where
  init : Hook
  loops : List Hook
  reloads : List Hook
  finalize : Hook
deriving DecidableEq, Repr

/-- A run at one moment: the flags, the number of moments passed, and the trace, latest first. -/
structure State where
  flags : Flags
  moment : Nat
  trace : List Mark
deriving DecidableEq, Repr

/-- What arrives between hooks, by the moment. -/
abbrev Arrivals := Nat → List Arrival

namespace State

def pass (arrivals : Arrivals) (s : State) : State :=
  let requests := (arrivals s.moment).filterMap Arrival.request?
  { s with flags := requests.foldl Flags.note s.flags, moment := s.moment + 1 }

def call (arrivals : Arrivals) (name : HookName) (hook : Hook) (s : State) :
    State × Option Bool :=
  let s := s.pass arrivals
  let (flags, result) := Hook.run hook.result s.flags hook.effects
  ({ s with flags, trace := .started name s.flags :: s.trace }, result)

/-- Serves a request to reload, if there is one. Answers the hooks left, or nothing after a
panic. -/
def serveReload (arrivals : Arrivals) (reloads : List Hook) (s : State) :
    State × Option (List Hook) :=
  let s := s.pass arrivals
  if s.flags.reload then
    let s := { s with flags := { s.flags with reload := false } }
    match reloads with
    | [] => ((s.call arrivals .reload ⟨[], true⟩).1, some [])
    | hook :: reloads =>
      let (s, result) := s.call arrivals .reload hook
      (s, result.map fun _ => reloads)
  else (s, some reloads)

/-- Iterates until the server is closed. Answers whether no hook panicked. -/
def iterate (arrivals : Arrivals) (loops reloads : List Hook) (s : State) : State × Bool :=
  let s := s.pass arrivals
  if s.flags.closed then (s, true)
  else
    match s.serveReload arrivals reloads with
    | (s, none) => (s, false)
    | (s, some reloads) =>
      match loops with
      | [] =>
        let s := s.pass arrivals
        ({ s with flags := s.flags.note .close, trace := .exhausted :: s.trace }, true)
      | hook :: loops =>
        match s.call arrivals .loop hook with
        | (s, none) => (s, false)
        | (s, some _) => iterate arrivals loops reloads s

end State

/-- One run from the flags it begins with. It succeeds if `init` did and neither it nor an
iteration panicked. -/
def run (arrivals : Arrivals) (script : Script) (flags : Flags) : Bool × State :=
  let (s, initialized) := State.call arrivals .init script.init ⟨flags, 0, []⟩
  let (s, ok) :=
    if initialized = some true then s.iterate arrivals script.loops script.reloads
    else (s, false)
  (ok, (s.call arrivals .finalize script.finalize).1)

/-! ## Workers -/

inductive Workers
  | perCpu
  | count (n : Nat)
deriving DecidableEq, Repr

/-- A positive number is taken, minus one means one per processor, and others mean nothing. -/
def Workers.set (w : Workers) (n : Int) : Workers :=
  if 0 < n then .count n.toNat else if n = -1 then .perCpu else w

end FrameLink.Server
