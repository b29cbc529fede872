import FrameLink.Program
import Std.Async.Signal
import Std.Async.TCP
import Std.Async.Timer
import Std.Sync.Mutex

/-!
# The command line

Follows the command line, and moves bytes between sockets and the echo service until a signal ends
the run. What is answered, and when, is decided by `Program` and by `Echo.World`.
-/

namespace FrameLink.Outside

open Std Std.Async

/-- A serving program with the sockets of its clients, by the names they go by in it. -/
structure Running where
  serving : Program.Serving
  sockets : List (String × TCP.Socket.Client)
  callers : Nat

def chunkSize : UInt64 := 8192

/-- How long deadlines may be overdue. -/
def tick : Std.Time.Millisecond.Offset := 100

/-- Why a file cannot be read; what has no cause of its own here counts as denied. -/
def fileError : IO.Error → FileError
  | .noFileOrDirectory .. => .notFound
  | .inappropriateType _ 21 _ => .isDirectory
  | .inappropriateType .. => .notDirectory
  | .invalidArgument .. => .nameTooLong
  | _ => .denied

def readerFor (arguments : List String) : IO FileReader := do
  match Arguments.parse arguments with
  | .ok { config := some path, .. } =>
    try
      let content ← IO.FS.readBinFile path
      return fun _ => .ok content.toList
    catch e => return fun _ => .error (fileError e)
  | _ => return fun _ => .error .notFound

def socketAddress? (a : Address) : Option Net.SocketAddress :=
  match a.host with
  | .v4 _ => (Net.IPv4Addr.ofString a.host.render).map fun host => .v4 ⟨host, a.port.toUInt16⟩
  | .v6 _ => (Net.IPv6Addr.ofString a.host.render).map fun host => .v6 ⟨host, a.port.toUInt16⟩

def listener? (address : String) : IO (Option TCP.Socket.Server) := do
  let some address := (Address.parse? address).bind socketAddress? | return none
  try
    let socket ← TCP.Socket.Server.mk
    socket.bind address
    socket.listen 1024
    return some socket
  catch _ => return none

/-- Hands out what the clients have received, and lets go of those whose connection is closed. -/
def Running.handOut (r : Running) : IO Running := do
  let gateway := r.serving.gateway
  let sockets ← r.sockets.filterM fun (name, socket) => do
    let some peer := gateway.peer? name | return false
    unless peer.received.isEmpty do
      discard (socket.send (ByteArray.mk peer.received.toArray)).toIO
    if peer.sawEof then
      discard socket.shutdown.toIO
    return !peer.sawEof
  return { r with sockets, serving.gateway.world := gateway.world.reported }

def happen (running : Mutex Running) (change : Running → Running) : IO Unit := do
  running.atomically do
    let now ← IO.monoMsNow
    let r ← get
    let world := r.serving.gateway.world
    let r := change { r with serving.gateway.world := world.advance (now - world.now) }
    set (← { r with serving.gateway := r.serving.gateway.settle }.handOut)

def Running.peerStep (name : String) (e : Peer.Event) (r : Running) : Running :=
  { r with serving.gateway.world := r.serving.gateway.world.peerStep name e }

def Running.accept (socket : TCP.Socket.Client) (r : Running) : Running :=
  let name := toString r.callers
  { r with
    serving.gateway.world := (r.serving.gateway.world.accept name).2
    sockets := (name, socket) :: r.sockets
    callers := r.callers + 1 }

partial def attend (running : Mutex Running) (name : String) (socket : TCP.Socket.Client) :
    Async Unit := do
  let event : Peer.Event ← try
      let bytes? ← socket.recv? chunkSize
      pure (bytes?.elim .shutdown fun bytes => .send bytes.toList)
    catch _ => pure .close
  happen running (·.peerStep name event)
  if let .send _ := event then attend running name socket

partial def acceptAll (running : Mutex Running) (listener : TCP.Socket.Server) : Async Unit := do
  let socket ← listener.accept
  let name ← running.atomically do return toString (← get).callers
  happen running (·.accept socket)
  background (attend running name socket)
  acceptAll running listener

partial def watchDeadlines (running : Mutex Running) : Async Unit := do
  sleep tick
  happen running id
  watchDeadlines running

def signals : List (Std.Async.Signal × Server.Signal) :=
  [(.sighup, .hangup), (.sigint, .interrupt), (.sigquit, .quit), (.sigabrt, .abort),
    (.sigterm, .terminate)]

/-- Waits for one kind of signal: a hangup reloads, and one that ends the program is told. -/
partial def watchSignal (running : Mutex Running) (arguments : List String)
    (ended : IO.Promise Nat) (waiter : Signal.Waiter) (signal : Server.Signal) : Async Unit := do
  discard (await (← waiter.wait))
  match Program.exitCode signal with
  | some code => ended.resolve code
  | none =>
    let read ← readerFor arguments
    let log ← running.atomically do
      let r ← get
      let (_, log, serving) := r.serving.reload read
      set { r with serving }
      return log
    log.forM (m := IO) IO.println
    watchSignal running arguments ended waiter signal

/-- Serves until a signal ends the program, and answers its exit code. -/
def serve (arguments : List String) (serving : Program.Serving) (listener : TCP.Socket.Server) :
    IO Nat := do
  let running ← Mutex.new { serving, sockets := [], callers := 0 : Running }
  let ended ← IO.Promise.new
  for (kind, signal) in signals do
    let waiter ← Signal.Waiter.mk kind true
    discard (watchSignal running arguments ended waiter signal).toIO
  discard (watchDeadlines running).toIO
  discard (acceptAll running listener).toIO
  let code ← IO.wait ended.result!
  happen running fun r =>
    { r with serving.gateway.world := r.serving.gateway.world.stopAll }
  return code

def print (ending : Program.Ending) : IO Unit := do
  ending.output.forM IO.print
  ending.errors.forM IO.eprint

end FrameLink.Outside

open FrameLink in
def main (arguments : List String) : IO UInt32 := do
  let read ← Outside.readerFor arguments
  let environment ← IO.getEnv "RUST_LOG"
  match Program.prepare .loopback environment read (← IO.monoMsNow) arguments with
  | .error ending =>
    Outside.print ending
    return ending.code.toUInt32
  | .ok serving =>
    serving.startLog.forM fun line => IO.println line
    match ← Outside.listener? serving.config.listen with
    | none =>
      Outside.print (.failed Program.exitedText)
      return 1
    | some listener => return (← Outside.serve arguments serving listener).toUInt32
