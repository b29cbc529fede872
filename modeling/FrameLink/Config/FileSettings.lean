import FrameLink.Buffer
import FrameLink.Frame
import FrameLink.Toml.Document

/-!
# Settings in a configuration file

A configuration file has the sections `server`, `task`, `echo` and `logging`. A section is a table
of named fields, or an array that holds its fields in order. Unknown keys do not matter, and a
field that is missing has its default; only the two fields that may be unset have to stand in a
section that is an array.
-/

namespace FrameLink

structure FileSettings where
  listen : String
  workers : Option Int
  verifyTimeout : Nat
  frameLimit : Nat
  token : Option String
  maxConnections : Nat
  logLevel : String
deriving DecidableEq, Repr

namespace FileSettings

def default : FileSettings where
  listen := "127.0.0.1:7000"
  workers := none
  verifyTimeout := 30
  frameLimit := defaultFrameLimit
  token := none
  maxConnections := 10000
  logLevel := "info"

inductive Section
  | named (entries : Toml.Entries)
  | ordered (items : List Toml.Item)

/-- A date counts as a table without known fields. -/
def Section.ofItem? : Toml.Item → Option Section
  | .table _ entries => some (.named entries)
  | .datetime => some (.named [])
  | .array items => some (.ordered items)
  | .tables all => some (.ordered (all.map (.table .header)))
  | _ => none

def Section.find? (root : Toml.Entries) (name : String) : Option Section :=
  match root.lookup name with
  | some item => ofItem? item
  | none => some (.named [])

def Section.item? (s : Section) (name : String) (position : Nat) : Option Toml.Item :=
  match s with
  | .named entries => entries.lookup name
  | .ordered items => items[position]?

def Section.field? {α : Type} (s : Section) (name : String) (position : Nat)
    (read : Toml.Item → Option α) (default : α) : Option α :=
  match s.item? name position with
  | some item => read item
  | none => some default

/-- A field that may be unset, but not be left out of an array. -/
def Section.optional? {α : Type} (s : Section) (name : String) (position : Nat)
    (read : Toml.Item → Option α) : Option (Option α) :=
  match s.item? name position, s with
  | some item, _ => (read item).map some
  | none, .named _ => some none
  | none, .ordered _ => none

def text? : Toml.Item → Option String
  | .text value => some value
  | _ => none

def word32? : Toml.Item → Option Int
  | .integer n => if -0x80000000 ≤ n ∧ n < 0x80000000 then some n else none
  | _ => none

def size? : Toml.Item → Option Nat
  | .integer n => if 0 ≤ n then some n.toNat else none
  | _ => none

def ofEntries? (root : Toml.Entries) : Option FileSettings := do
  let server ← Section.find? root "server"
  let task ← Section.find? root "task"
  let echo ← Section.find? root "echo"
  let logging ← Section.find? root "logging"
  let listen ← server.field? "listen" 0 text? default.listen
  let workers ← server.optional? "workers" 1 word32?
  let verifyTimeout ← task.field? "verify_timeout_secs" 0 size? default.verifyTimeout
  let frameLimit ← task.field? "max_frame_size" 1 size? default.frameLimit
  let token ← echo.optional? "auth_token" 0 text?
  let maxConnections ← echo.field? "max_connections" 1 size? default.maxConnections
  let logLevel ← logging.field? "level" 0 text? default.logLevel
  some ⟨listen, workers, verifyTimeout, frameLimit, token, maxConnections, logLevel⟩

def parse? (text : String) : Option FileSettings :=
  (Toml.parse? text).bind ofEntries?

end FileSettings

end FrameLink
