import FrameLink.Config.Arguments
import FrameLink.Config.FileSettings
import FrameLink.Echo.Service
import FrameLink.Files

/-!
# Configurations

A setting comes from the command line if it is given there, else from the configuration file that
the command line names, else from the defaults. The limit on frames is checked after the merge. A
configuration keeps the command line it came from, so that it can be resolved again later.
-/

namespace FrameLink

structure Config where
  listen : String
  workers : Option Int
  token : Option String
  maxConnections : Nat
  logLevel : String
  frameLimit : Nat
  /-- How many seconds a connection may stay unverified. -/
  verifyTimeout : Nat
  arguments : Arguments
deriving DecidableEq, Repr

inductive ConfigError
  | unreadable (path : String) (error : FileError)
  | unparsable (path : String)
  | badFrameLimit (limit : Nat)
deriving DecidableEq, Repr

namespace ConfigError

def frameLimitReason (limit : Nat) : String :=
  "max_frame_size must be between " ++ toString headerSize ++ " and "
    ++ toString defaultFrameLimit ++ ", got " ++ toString limit

/-- The text for people; where the file breaks the rules of its format, the beginning of it. -/
def message : ConfigError → String
  | .unreadable path e => "Failed to read config file '" ++ path ++ "': " ++ e.message
  | .unparsable path => "Failed to parse config file '" ++ path ++ "': "
  | .badFrameLimit limit => "Invalid configuration: " ++ frameLimitReason limit

end ConfigError

namespace Config

def merge (a : Arguments) (f : FileSettings) : Config where
  listen := a.listen.getD f.listen
  workers := a.workers <|> f.workers
  token := a.token <|> f.token
  maxConnections := a.maxConnections.getD f.maxConnections
  logLevel := a.logLevel.getD f.logLevel
  frameLimit := a.frameLimit.getD f.frameLimit
  verifyTimeout := a.verifyTimeout.getD f.verifyTimeout
  arguments := a

def fileSettings (read : FileReader) (a : Arguments) : Except ConfigError FileSettings :=
  match a.config with
  | none => .ok .default
  | some path =>
    match (read path).bind textOfContent with
    | .error e => .error (.unreadable path e)
    | .ok text =>
      match FileSettings.parse? text with
      | some settings => .ok settings
      | none => .error (.unparsable path)

/-- Accepts the limits from the header size to the default one. -/
def check (c : Config) : Except ConfigError Config :=
  if headerSize ≤ c.frameLimit ∧ c.frameLimit ≤ defaultFrameLimit then .ok c
  else .error (.badFrameLimit c.frameLimit)

def resolve (read : FileReader) (a : Arguments) : Except ConfigError Config :=
  match fileSettings read a with
  | .error e => .error e
  | .ok settings => (merge a settings).check

def reload (read : FileReader) (c : Config) : Except ConfigError Config :=
  resolve read c.arguments

/-- One configuration, or failure, for each later state of the files. Each of them starts from the
last that was resolved. -/
def reloads (c : Config) : List FileReader → List (Except ConfigError Config)
  | [] => []
  | read :: later =>
    match c.reload read with
    | .ok next => .ok next :: reloads next later
    | .error e => .error e :: reloads c later

def taskSettings (c : Config) : Task.Settings :=
  ⟨c.frameLimit, c.verifyTimeout * 1000, Buffer.defaultSize⟩

def echoSettings (c : Config) : Echo.Settings :=
  ⟨c.token.map fun token => token.toUTF8.toList, c.taskSettings⟩

def world? (now : Instant) (c : Config) : Option Echo.World :=
  (Echo.Service.create? c.echoSettings c.maxConnections).map (Echo.World.ofService now)

end Config

end FrameLink
