import FrameLink.Digits

/-!
# The command line

Options take one value each, in the same argument behind an equals sign or in the next one. An
option may be given once. Its value is looked at when the next option comes or the line ends, so
that an argument that is no option at all is found first.
-/

namespace FrameLink

structure Arguments where
  config : Option String
  listen : Option String
  workers : Option Int
  verifyTimeout : Option Nat
  frameLimit : Option Nat
  token : Option String
  maxConnections : Option Nat
  logLevel : Option String
deriving DecidableEq, Repr

namespace Arguments

def empty : Arguments :=
  ⟨none, none, none, none, none, none, none, none⟩

inductive Rejection
  | unknownArgument
  /-- An option without its value. -/
  | invalidValue
  /-- A value that is not what the option takes. -/
  | valueValidation
  /-- An option given twice. -/
  | argumentConflict
  /-- A value where none is taken. -/
  | tooManyValues
  | displayHelp
  | displayVersion
deriving DecidableEq, Repr

/-- Help and version are no failures. -/
def Rejection.exitCode : Rejection → Nat
  | .displayHelp | .displayVersion => 0
  | _ => 2

inductive Opt
  | config | listen | workers | verifyTimeout | frameLimit | token | maxConnections | logLevel
deriving DecidableEq, Repr

inductive Flag
  | opt (opt : Opt)
  | help
  | version
deriving DecidableEq, Repr

def longFlags : List (String × Flag) :=
  [("config", .opt .config), ("listen", .opt .listen), ("workers", .opt .workers),
    ("verify-timeout", .opt .verifyTimeout), ("max-frame-size", .opt .frameLimit),
    ("auth-token", .opt .token), ("max-connections", .opt .maxConnections),
    ("log-level", .opt .logLevel), ("help", .help), ("version", .version)]

def shortFlags : List (Char × Flag) :=
  [('c', .opt .config), ('l', .opt .listen), ('w', .opt .workers), ('t', .opt .verifyTimeout),
    ('h', .help), ('V', .version)]

/-! ## Values -/

/-- A number of 64 bits, with or without a plus. -/
def size? (value : String) : Option Nat :=
  let n? := match value.toList with
    | '+' :: cs => decimal? cs
    | cs => decimal? cs
  n?.filter (· < 1 <<< 64)

def word32? (value : String) : Option Int :=
  let n? : Option Int := match value.toList with
    | '-' :: cs => (decimal? cs).map fun n => -(n : Int)
    | '+' :: cs => (decimal? cs).map Int.ofNat
    | cs => (decimal? cs).map Int.ofNat
  n?.filter fun n => decide (-0x80000000 ≤ n) && decide (n < 0x80000000)

def has (a : Arguments) : Opt → Bool
  | .config => a.config.isSome
  | .listen => a.listen.isSome
  | .workers => a.workers.isSome
  | .verifyTimeout => a.verifyTimeout.isSome
  | .frameLimit => a.frameLimit.isSome
  | .token => a.token.isSome
  | .maxConnections => a.maxConnections.isSome
  | .logLevel => a.logLevel.isSome

def store {α : Type} (value? : Option α) (f : α → Arguments) : Except Rejection Arguments :=
  match value? with
  | some value => .ok (f value)
  | none => .error .valueValidation

def set (a : Arguments) (opt : Opt) (value : String) : Except Rejection Arguments :=
  if a.has opt then .error .argumentConflict
  else
    match opt with
    | .config => if value.isEmpty then .error .invalidValue else .ok { a with config := value }
    | .listen => .ok { a with listen := value }
    | .workers => store (word32? value) fun n => { a with workers := n }
    | .verifyTimeout => store (size? value) fun n => { a with verifyTimeout := n }
    | .frameLimit => store (size? value) fun n => { a with frameLimit := n }
    | .token => .ok { a with token := value }
    | .maxConnections => store (size? value) fun n => { a with maxConnections := n }
    | .logLevel => .ok { a with logLevel := value }

/-! ## Reading -/

/-- An option whose value has not been looked at, and that value if it has come. -/
abbrev Pending := Option (Opt × Option String)

/-- Gives the last option its value. -/
def resolve (a : Arguments) : Pending → Except Rejection Arguments
  | none => .ok a
  | some (_, none) => .error .invalidValue
  | some (opt, some value) => a.set opt value

/-- An option with or without a value in the same argument. -/
def meet (a : Arguments) (pending : Pending) (opt : Opt) (value : Option String) :
    Except Rejection (Arguments × Pending) := do
  let a ← a.resolve pending
  match value with
  | some value => return (← a.set opt value, none)
  | none => return (a, some (opt, none))

/-- Help or version, which end the reading. -/
def leave {α : Type} (a : Arguments) (pending : Pending) (rejection : Rejection) :
    Except Rejection α := do
  let _ ← a.resolve pending
  throw rejection

/-- Cuts an argument at its first equals sign. -/
def cutValue (cs : List Char) : List Char × Option String :=
  match cs.dropWhile (· != '=') with
  | [] => (cs, none)
  | _ :: value => (cs.takeWhile (· != '='), some (String.ofList value))

def readLong (a : Arguments) (pending : Pending) (cs : List Char) :
    Except Rejection (Arguments × Pending) :=
  let (name, value) := cutValue cs
  match longFlags.lookup (String.ofList name), value with
  | some (.opt opt), value => a.meet pending opt value
  | none, _ => throw .unknownArgument
  | some _, some _ => throw .tooManyValues
  | some .help, none => a.leave pending .displayHelp
  | some .version, none => a.leave pending .displayVersion

/-- An argument behind one dash: the rest behind the letter is the value. -/
def readShort (a : Arguments) (pending : Pending) (letter : Char) (rest : List Char) :
    Except Rejection (Arguments × Pending) :=
  match shortFlags.lookup letter with
  | some (.opt opt) =>
    match rest with
    | [] => a.meet pending opt none
    | '=' :: value => a.meet pending opt (some (String.ofList value))
    | value => a.meet pending opt (some (String.ofList value))
  | some .help => a.leave pending .displayHelp
  | some .version => a.leave pending .displayVersion
  | none => throw .unknownArgument

/-- An argument that is no option: the value an option waits for. -/
def readValue (a : Arguments) (pending : Pending) (value : String) :
    Except Rejection (Arguments × Pending) :=
  match pending with
  | some (opt, none) => .ok (a, some (opt, some value))
  | _ => throw .unknownArgument

/-- Reads one argument. The number of workers may begin with a dash. -/
def readOne (a : Arguments) (pending : Pending) (argument : String) :
    Except Rejection (Arguments × Pending) :=
  if pending = some (.workers, none) then a.readValue pending argument
  else
    match argument.toList with
    | '-' :: '-' :: rest => a.readLong pending rest
    | '-' :: letter :: rest => a.readShort pending letter rest
    | _ => a.readValue pending argument

def readAll (a : Arguments) (pending : Pending) : List String → Except Rejection Arguments
  | [] => a.resolve pending
  | argument :: arguments =>
    if argument = "--" ∧ pending ≠ some (.workers, none) then
      if arguments.isEmpty then a.resolve pending else throw .unknownArgument
    else do
      let (a, pending) ← a.readOne pending argument
      a.readAll pending arguments

def parse (arguments : List String) : Except Rejection Arguments :=
  empty.readAll none arguments

end Arguments

end FrameLink
