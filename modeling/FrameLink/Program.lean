import FrameLink.Config.Resolve
import FrameLink.Echo.Gateway
import FrameLink.Log
import FrameLink.Server.Lifecycle

/-!
# The program

What one run of the program comes to: it ends at once with an exit code and a text, or it listens
and serves clients until a signal ends it. A hangup makes it read its configuration again.
-/

namespace FrameLink.Program

/-- The options with their values and what they mean, in two columns. -/
def helpLines : List (String × String) :=
  [("-c, --config <CONFIG>", "Path to TOML configuration file"),
    ("-l, --listen <LISTEN>", "Address to bind to (e.g., 0.0.0.0:7000)"),
    ("-w, --workers <WORKERS>", "Number of runtime worker threads (-1 = all CPU cores)"),
    ("-t, --verify-timeout <VERIFY_TIMEOUT>", "Seconds a connection may stay unverified"),
    ("    --max-frame-size <MAX_FRAME_SIZE>", "Largest accepted frame, header included"),
    ("    --auth-token <AUTH_TOKEN>", "Token clients must present in their hello frame"),
    ("    --max-connections <MAX_CONNECTIONS>", "Maximum number of concurrent connections"),
    ("    --log-level <LOG_LEVEL>", "Log level (trace, debug, info, warn, error)"),
    ("-h, --help", "Print help"),
    ("-V, --version", "Print version")]

def helpColumn : Nat := 41

def helpText : String :=
  "Framed TCP echo server\n\nUsage: gutil-echo [OPTIONS]\n\nOptions:\n"
    ++ String.join (helpLines.map fun (option, meaning) =>
      "  " ++ String.ofList (option.toList.rightpad helpColumn ' ') ++ meaning ++ "\n")

def versionText : String :=
  "gutil-echo 0.1.0\n"

/-! ## Failures as texts -/

/-- Characters that do not show, or only together with the one in front of them. -/
def isInvisible (c : Char) : Bool :=
  let n := c.toNat
  n < 0x20 || (0x7f ≤ n && n < 0xa0) || n == 0xad || (0x300 ≤ n && n < 0x370)
    || (0x200b ≤ n && n < 0x2010) || (0x2028 ≤ n && n < 0x202f) || (0x2060 ≤ n && n < 0x2070)
    || (0xe000 ≤ n && n < 0xf900) || n == 0xfeff || 0xe0000 ≤ n

def escaped (quotes : List Char) (c : Char) : String :=
  if c == '\x00' then "\\0"
  else if c == '\t' then "\\t"
  else if c == '\r' then "\\r"
  else if c == '\n' then "\\n"
  else if c == '\\' || quotes.contains c then "\\" ++ c.toString
  else if isInvisible c then
    "\\u\x7b" ++ String.ofList (Nat.toDigits 16 c.toNat) ++ "\x7d"
  else c.toString

def quote (s : String) : String :=
  "\"" ++ String.join (s.toList.map (escaped ['"'])) ++ "\""

/-- A path in double quotes, where single ones are escaped too. -/
def quotePath (s : String) : String :=
  "\"" ++ String.join (s.toList.map (escaped ['"', '\''])) ++ "\""

def describeFileError (e : FileError) : String :=
  match e.code? with
  | some code =>
    "Os \x7b code: " ++ toString code ++ ", kind: " ++ e.kind.name ++ ", message: "
      ++ quote e.reason ++ " \x7d"
  | none => "Error \x7b kind: " ++ e.kind.name ++ ", message: " ++ quote e.reason ++ " \x7d"

def describeConfigError : ConfigError → String
  | .unreadable path e => "FileRead(" ++ quotePath path ++ ", " ++ describeFileError e ++ ")"
  | .unparsable path => "TomlParse(" ++ quotePath path ++ ")"
  | .badFrameLimit limit => "Invalid(" ++ quote (ConfigError.frameLimitReason limit) ++ ")"

def failureText (reason : String) : String :=
  "Error: " ++ reason ++ "\n"

def exitedText : String :=
  failureText (quote "server exited with errors")

/-! ## Log lines -/

def logTarget : String :=
  "gutil_echo"

def startLine (c : Config) : String :=
  "INFO Starting gutil-echo server listen=" ++ c.listen ++ " workers="
    ++ (c.workers.elim "None" fun n => "Some(" ++ toString n ++ ")")
    ++ " verify_timeout_secs=" ++ toString c.verifyTimeout
    ++ " max_frame_size=" ++ toString c.frameLimit
    ++ " max_connections=" ++ toString c.maxConnections
    ++ " auth=" ++ toString c.token.isSome

def listenChangeLine (current requested : String) : String :=
  "WARN Listen address change needs a restart current=" ++ current ++ " requested=" ++ requested

def logged (f : LogFilter) (level : LogLevel) (line : String) : List String :=
  if f.enables logTarget level then [line] else []

/-! ## Runs -/

structure Ending where
  code : Nat
  output : Option String
  errors : Option String
deriving DecidableEq, Repr

structure Serving where
  config : Config
  filter : LogFilter
  gateway : Echo.Gateway

namespace Ending

def printed (text : String) : Ending :=
  ⟨0, some text, none⟩

def failed (text : String) : Ending :=
  ⟨1, none, some text⟩

def rejected (r : Arguments.Rejection) : Ending :=
  ⟨r.exitCode, none, none⟩

def panicked : Ending :=
  ⟨101, none, none⟩

end Ending

/-- Follows a command line up to the point where it binds its address. -/
def prepare (network : Network) (environment : Option String) (read : FileReader) (now : Instant)
    (arguments : List String) : Except Ending Serving :=
  match Arguments.parse arguments with
  | .error .displayHelp => .error (.printed helpText)
  | .error .displayVersion => .error (.printed versionText)
  | .error e => .error (.rejected e)
  | .ok a =>
    match Config.resolve read a with
    | .error e => .error (.failed (failureText (describeConfigError e)))
    | .ok c =>
      match c.world? now with
      | none => .error .panicked
      | some world =>
        .ok ⟨c, LogFilter.choose environment c.logLevel, ⟨network, .wide, false, world⟩⟩

/-- Runs a command line: it ends, or it serves at an address. -/
def launch (network : Network) (environment : Option String) (read : FileReader) (now : Instant)
    (arguments : List String) : Except Ending (Serving × Address) :=
  match prepare network environment read now arguments with
  | .error ending => .error ending
  | .ok s =>
    match network.bind s.config.listen with
    | .error _ => .error (.failed exitedText)
    | .ok address => .ok (s, address)

namespace Serving

def startLog (s : Serving) : List String :=
  logged s.filter .info (startLine s.config)

/-- A hangup: the configuration is read again. Answers whether that succeeded, and what was
logged. A new address to listen at needs a new run. -/
def reload (s : Serving) (read : FileReader) : Bool × List String × Serving :=
  match s.config.reload read with
  | .error _ => (false, [], s)
  | .ok next =>
    (true,
      if next.listen = s.config.listen then []
      else logged s.filter .warn (listenChangeLine s.config.listen next.listen),
      { s with config := next, gateway := (s.gateway.step (.apply next.echoSettings)).2 })

end Serving

def exitCode (signal : Server.Signal) : Option Nat :=
  if signal.request? = some .close then some 0 else none

end FrameLink.Program
