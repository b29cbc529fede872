import FrameLink.Digits
import FrameLink.IoError

/-!
# Network addresses

A numeric address is four decimal bytes, or an address of the sixth version in brackets, with a
port. What comes of binding or dialling one depends on the network: which addresses are local, and
whether other sockets can be reached.
-/

namespace FrameLink

inductive Host
  /-- Four bytes. -/
  | v4 (bytes : List Nat)
  /-- Eight groups of sixteen bits. -/
  | v6 (groups : List Nat)
deriving DecidableEq, Repr

structure Address where
  host : Host
  port : Nat
deriving DecidableEq, Repr

namespace Address

def pieces (separator : Char) (s : String) : List (List Char) :=
  (s.splitOn separator.toString).map String.toList

/-- A byte in decimal digits without leading zeros. -/
def byte? (cs : List Char) : Option Nat :=
  if 3 < cs.length ∨ (1 < cs.length ∧ cs.head? = some '0') then none
  else (decimal? cs).filter (· < 256)

def v4? (s : String) : Option (List Nat) :=
  let bytes := pieces '.' s
  if bytes.length = 4 then bytes.mapM byte? else none

/-- Sixteen bits in at most four hexadecimal digits. -/
def group? (cs : List Char) : Option Nat :=
  if cs.isEmpty ∨ 4 < cs.length then none
  else hexadecimal? cs

/-- Groups between colons, the last two of which may be written as four bytes. -/
def groups? (s : String) : Option (List Nat) :=
  if s.isEmpty then some []
  else
    let parts := s.splitOn ":"
    match v4? (parts.getLastD "") with
    | some [a, b, c, d] =>
      (parts.dropLast.mapM fun part => group? part.toList).map
        (· ++ [256 * a + b, 256 * c + d])
    | _ => parts.mapM fun part => group? part.toList

/-- An address of the sixth version. Two colons stand for a run of zeros. -/
def v6? (s : String) : Option (List Nat) :=
  match s.splitOn "::" with
  | [whole] => (groups? whole).filter (·.length = 8)
  | [front, back] => do
    let front ← if front.contains '.' then none else groups? front
    let back ← groups? back
    if front.length + back.length < 8 then
      some (front ++ List.replicate (8 - front.length - back.length) 0 ++ back)
    else none
  | _ => none

/-- A port may have a plus in front of it. -/
def port? (s : String) : Option Nat :=
  let n? := match s.toList with
    | '+' :: cs => decimal? cs
    | cs => decimal? cs
  n?.filter (· < 65536)

def cutLast (s : String) : Option (String × String) :=
  match (s.splitOn ":").reverse with
  | port :: host :: hosts => some (":".intercalate (host :: hosts).reverse, port)
  | _ => none

/-- A host of either version. That of the sixth may stand in brackets. -/
def host? (s : String) : Option Host :=
  match v4? s with
  | some bytes => some (.v4 bytes)
  | none =>
    match s.toList, s.toList.getLast? with
    | '[' :: rest, some ']' => (v6? (String.ofList rest.dropLast)).map .v6
    | _, _ => (v6? s).map .v6

def parse? (s : String) : Option Address := do
  let (host, port) ← cutLast s
  some ⟨← host? host, ← port? port⟩

def renderV4 (bytes : List Nat) : String :=
  ".".intercalate (bytes.map toString)

def hexText (n : Nat) : String :=
  String.ofList (Nat.toDigits 16 n)

/-- The first longest run of zeros among groups: where it starts and how long it is. -/
def longestZeros (groups : List Nat) : Nat × Nat :=
  (List.range groups.length).foldl (fun best start =>
    let run := ((groups.drop start).takeWhile (· == 0)).length
    if best.2 < run then (start, run) else best) (0, 0)

/-- The text of a host of the sixth version: the longest run of two or more zeros is left out,
and a host of the fourth version in it keeps its own text. -/
def renderV6 (groups : List Nat) : String :=
  let texts (gs : List Nat) := ":".intercalate (gs.map hexText)
  match groups with
  | [0, 0, 0, 0, 0, 0xffff, high, low] =>
    "::ffff:" ++ renderV4 [high / 256, high % 256, low / 256, low % 256]
  | _ =>
    let (start, run) := longestZeros groups
    if run < 2 then texts groups
    else texts (groups.take start) ++ "::" ++ texts (groups.drop (start + run))

end Address

def Host.render : Host → String
  | .v4 bytes => Address.renderV4 bytes
  | .v6 groups => Address.renderV6 groups

/-- Whether a host belongs to the machine itself, under this name or any. -/
def Host.isLocal : Host → Bool
  | .v4 bytes => bytes.head? == some 127 || bytes == [0, 0, 0, 0]
  | .v6 groups => groups == [0, 0, 0, 0, 0, 0, 0, 1] || groups == [0, 0, 0, 0, 0, 0, 0, 0]

inductive Network
  /-- To nothing: it has no interface, and does not even reach itself. -/
  | isolated
  /-- To itself. -/
  | loopback
deriving DecidableEq, Repr

namespace Network

/-- Without interfaces every host of the fourth version may be bound, and dialled in vain; hosts of
the sixth need an interface that has them. -/
def bindIsolated : Host → Except IoErrorKind Unit
  | .v4 _ => .ok ()
  | .v6 [0, 0, 0, 0, 0, 0, 0, 0] => .ok ()
  | .v6 (0 :: 0 :: 0 :: 0 :: 0 :: 0xffff :: _) => .ok ()
  | .v6 (first :: _) =>
    .error (if 0xff00 ≤ first ∨ first / 64 = 0xfe80 / 64 then .invalidInput
      else .addrNotAvailable)
  | .v6 [] => .error .invalidInput

def dialIsolated : Host → IoErrorKind
  | .v4 _ => .networkUnreachable
  | .v6 (0 :: 0 :: 0 :: 0 :: 0 :: 0xffff :: _) => .networkUnreachable
  | .v6 (first :: _) =>
    if 0xff00 ≤ first then .networkUnreachable
    else if first / 64 = 0xfe80 / 64 then .invalidInput
    else .addrNotAvailable
  | .v6 [] => .invalidInput

def bind (network : Network) (address : String) : Except IoErrorKind Address :=
  match Address.parse? address with
  | none => .error .invalidInput
  | some a =>
    match network with
    | .isolated => (bindIsolated a.host).map fun _ => a
    | .loopback => if a.host.isLocal then .ok a else .error .addrNotAvailable

def dial (network : Network) (listens : Address → Bool) (address : String) :
    Except IoErrorKind Address :=
  match Address.parse? address with
  | none => .error .invalidInput
  | some a =>
    match network with
    | .isolated => .error (dialIsolated a.host)
    | .loopback =>
      if !a.host.isLocal then .error .networkUnreachable
      else if listens a then .ok a
      else .error .connectionRefused

end Network

end FrameLink
