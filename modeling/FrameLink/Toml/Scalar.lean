import FrameLink.Toml.Item
import FrameLink.Toml.Lexis

/-!
# Numbers, dates and times in TOML

Digits may be grouped by single underscores. Integers have 64 bits with sign, dates have to exist
in the calendar, and a float that is too large for any finite value is refused.
-/

namespace FrameLink.Toml

/-- Reads digits that may be grouped by single underscores. -/
def grouped (isDigit : Char → Bool) : List Char → Option (List Char × List Char)
  | [] => none
  | c :: rest => if isDigit c then some (more rest [c]) else none
where
  more : List Char → List Char → List Char × List Char
    | '_' :: c :: rest, acc =>
      if isDigit c then more rest (c :: acc) else (acc.reverse, '_' :: c :: rest)
    | c :: rest, acc => if isDigit c then more rest (c :: acc) else (acc.reverse, c :: rest)
    | [], acc => (acc.reverse, [])

def digitsValue (base : Nat) (digits : List Char) : Nat :=
  digits.foldl (fun n c => base * n + (hexDigit? c).getD 0) 0

def sign : List Char → Bool × List Char
  | '-' :: rest => (true, rest)
  | '+' :: rest => (false, rest)
  | s => (false, s)

/-- The digits of a decimal integer; none starts with a zero but zero itself. -/
def decimalDigits? : List Char → Option (List Char × List Char)
  | '0' :: rest => some (['0'], rest)
  | s => grouped Char.isDigit s

def integerBound : Int := (1 <<< 63 : Nat)

def inRange (n : Int) : Option Item :=
  if -integerBound ≤ n ∧ n < integerBound then some (.integer n) else none

/-- An integer in a base of its own, read behind the mark of the base. -/
def based? (base : Nat) (s : List Char) : Option (Item × List Char) := do
  let (digits, rest) ← grouped (fun c => (hexDigit? c).any (· < base)) s
  let item ← inRange (digitsValue base digits)
  some (item, rest)

def integer? : List Char → Option (Item × List Char)
  | '0' :: 'x' :: rest => based? 16 rest
  | '0' :: 'o' :: rest => based? 8 rest
  | '0' :: 'b' :: rest => based? 2 rest
  | s => do
    let (negative, s) := sign s
    let (digits, rest) ← decimalDigits? s
    let n : Int := digitsValue 10 digits
    let item ← inRange (if negative then -n else n)
    some (item, rest)

/-! ## Floats -/

/-- The least number that is rounded to no finite float. -/
def floatBound : Nat := 1 <<< 1024 - 1 <<< 970

/-- Whether `digits · 10 ^ exponent` is rounded to no finite float. -/
def overflows (digits : List Char) (exponent : Int) : Bool :=
  let digits := digits.dropWhile (· == '0')
  if digits.isEmpty then false
  else
    let top := (digits.length : Int) + exponent
    if 400 < top then true
    else if top < 300 then false
    else if 0 ≤ exponent then floatBound ≤ digitsValue 10 digits * Nat.pow 10 exponent.toNat
    else floatBound * Nat.pow 10 (-exponent).toNat ≤ digitsValue 10 digits

def exponent? : List Char → Option (Int × List Char)
  | e :: rest =>
    if e == 'e' || e == 'E' then do
      let (negative, rest) := sign rest
      let (digits, rest) ← grouped Char.isDigit rest
      let n : Int := digitsValue 10 digits
      some (if negative then -n else n, rest)
    else none
  | [] => none

/-- A float without sign: an integer with a fraction, an exponent or both. -/
def plainFloat? (negative : Bool) (s : List Char) : Option (Item × List Char) := do
  let (whole, rest) ← decimalDigits? s
  let (fraction, exponent, rest) ←
    match rest with
    | '.' :: rest => do
      let (fraction, rest) ← grouped Char.isDigit rest
      match exponent? rest with
      | some (exponent, rest) => some (fraction, exponent, rest)
      | none => some (fraction, 0, rest)
    | rest => do
      let (exponent, rest) ← exponent? rest
      some ([], exponent, rest)
  if !negative && overflows (whole ++ fraction) (exponent - fraction.length) then none
  else some (.float, rest)

def float? (s : List Char) : Option (Item × List Char) :=
  let (negative, s) := sign s
  match s with
  | 'i' :: 'n' :: 'f' :: rest => some (.float, rest)
  | 'n' :: 'a' :: 'n' :: rest => some (.float, rest)
  | s => plainFloat? negative s

/-! ## Dates and times -/

def field? (width low high : Nat) (s : List Char) : Option (Nat × List Char) :=
  let digits := s.take width
  let n := digitsValue 10 digits
  if digits.length = width ∧ digits.all Char.isDigit ∧ low ≤ n ∧ n ≤ high then
    some (n, s.drop width)
  else none

def expect? (c : Char) : List Char → Option (List Char)
  | d :: rest => if d == c then some rest else none
  | [] => none

def daysIn (year month : Nat) : Nat :=
  if month = 2 then
    if year % 4 = 0 ∧ (year % 100 ≠ 0 ∨ year % 400 = 0) then 29 else 28
  else if month = 4 ∨ month = 6 ∨ month = 9 ∨ month = 11 then 30
  else 31

def date? (s : List Char) : Option (List Char) := do
  let (year, s) ← field? 4 0 9999 s
  let s ← expect? '-' s
  let (month, s) ← field? 2 1 12 s
  let s ← expect? '-' s
  let (_, s) ← field? 2 1 (daysIn year month) s
  some s

def skipSubseconds (s : List Char) : List Char :=
  match s with
  | '.' :: c :: rest => if c.isDigit then rest.dropWhile Char.isDigit else s
  | _ => s

def hourMinute? (s : List Char) : Option (List Char) := do
  let (_, s) ← field? 2 0 23 s
  let s ← expect? ':' s
  let (_, s) ← field? 2 0 59 s
  some s

/-- A time of day; a minute may have a leap second. -/
def time? (s : List Char) : Option (List Char) := do
  let s ← hourMinute? s
  let s ← expect? ':' s
  let (_, s) ← field? 2 0 60 s
  some (skipSubseconds s)

/-- The offset of a time from that of Greenwich, if there is one. -/
def skipOffset (s : List Char) : List Char :=
  match s with
  | 'Z' :: rest => rest
  | 'z' :: rest => rest
  | '+' :: rest => (hourMinute? rest).getD s
  | '-' :: rest => (hourMinute? rest).getD s
  | _ => s

def datetime? (s : List Char) : Option (Item × List Char) :=
  match date? s with
  | some rest =>
    match rest with
    | c :: afterDate =>
      if c == 'T' || c == 't' || c == ' ' then
        match time? afterDate with
        | some rest => some (.datetime, skipOffset rest)
        | none => some (.datetime, rest)
      else some (.datetime, rest)
    | [] => some (.datetime, [])
  | none => (time? s).map (.datetime, ·)

/-! ## All values that hold no others -/

def scalarItem? (s : List Char) : Option (Item × List Char) :=
  match s with
  | 't' :: 'r' :: 'u' :: 'e' :: rest => some (.boolean true, rest)
  | 'f' :: 'a' :: 'l' :: 's' :: 'e' :: rest => some (.boolean false, rest)
  | _ =>
    match string? s with
    | some (text, rest) => some (.text text, rest)
    | none =>
      match datetime? s with
      | some found => some found
      | none =>
        match float? s with
        | some found => some found
        | none => integer? s

end FrameLink.Toml
