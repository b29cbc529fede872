/-!
# Log filters

A filter is a list of directives, each of which lets through the events of a target up to a level.
Of the directives that fit an event the one with the longest target decides.
-/

namespace FrameLink

inductive LogLevel
  | off
  | error
  | warn
  | info
  | debug
  | trace
deriving DecidableEq, Repr

namespace LogLevel

def verbosity : LogLevel → Nat
  | .off => 0
  | .error => 1
  | .warn => 2
  | .info => 3
  | .debug => 4
  | .trace => 5

def names : List (String × LogLevel) :=
  [("off", .off), ("error", .error), ("warn", .warn), ("info", .info), ("debug", .debug),
    ("trace", .trace), ("0", .off), ("1", .error), ("2", .warn), ("3", .info), ("4", .debug),
    ("5", .trace)]

/-- A level by its name in any case, or by its verbosity. -/
def ofText? (s : String) : Option LogLevel :=
  names.lookup s.toLower

end LogLevel

/-- Lets through the events of a target, or of all. Inside spans only, if it names one. -/
structure Directive where
  target : Option String
  span : Bool
  level : LogLevel
deriving DecidableEq, Repr

namespace Directive

def isTargetChar (c : Char) : Bool :=
  c.isAlphanum || c == '_' || c == '-' || c == ':'

/-- A target with the span behind it, if there is one. -/
def scope? (cs : List Char) : Option (Option String × Bool) :=
  let name := cs.takeWhile isTargetChar
  let target := if name.isEmpty then none else some (String.ofList name)
  match cs.dropWhile isTargetChar with
  | [] => if name.isEmpty then none else some (target, false)
  | '[' :: rest => if rest.getLast? = some ']' then some (target, true) else none
  | _ => none

/-- A level alone, or a scope with or without a level. Without one all levels pass. -/
def parse? (s : String) : Option Directive :=
  match LogLevel.ofText? s with
  | some level => some ⟨none, false, level⟩
  | none => do
    let (scope, level) := match s.splitOn "=" with
      | scope :: level@(_ :: _) => (scope, "=".intercalate level)
      | _ => (s, "")
    let (target, span) ← scope? scope.toList
    let level ← if level.isEmpty then some .trace else LogLevel.ofText? level
    some ⟨target, span, level⟩

def fits (d : Directive) (target : String) : Bool :=
  !d.span && d.target.all fun t => t.isPrefixOf target

def rank (d : Directive) : Nat :=
  (d.target.map fun t => t.utf8ByteSize + 1).getD 0

end Directive

abbrev LogFilter := List Directive

namespace LogFilter

def texts (s : String) : List String :=
  (s.splitOn ",").filter (· != "")

/-- All directives of a text, each of which has to be well formed. -/
def parse? (s : String) : Option LogFilter :=
  (texts s).mapM Directive.parse?

def ofText (s : String) : LogFilter :=
  (texts s).filterMap Directive.parse?

/-- The filter of the environment, if it has a good one, and else of the configuration. -/
def choose (environment : Option String) (configured : String) : LogFilter :=
  (environment.bind parse?).getD (ofText configured)

/-- Whether an event passes. A filter without directives lets errors through. -/
def enables (f : LogFilter) (target : String) (level : LogLevel) : Bool :=
  if f.isEmpty then level.verbosity ≤ LogLevel.error.verbosity
  else
    let best := (f.filter (·.fits target)).foldl (fun best d =>
      match best with
      | some b => if Directive.rank b ≤ d.rank then some d else best
      | none => some d) none
    best.any fun d => level.verbosity ≤ d.level.verbosity

end LogFilter

end FrameLink
