import FrameLink.Digits

/-!
# The words of TOML

Blanks, comments, keys and strings. Each reader takes a list of characters and answers what it
read with the rest, or nothing.
-/

namespace FrameLink.Toml

def isBlank (c : Char) : Bool :=
  c == ' ' || c == '\t'

/-- Characters of comments and of single-line strings, up to those that delimit or escape. -/
def isPlain (c : Char) : Bool :=
  c == '\t' || (0x20 ≤ c.toNat && c.toNat != 0x7f)

def skipBlanks (s : List Char) : List Char :=
  s.dropWhile isBlank

def newline? : List Char → Option (List Char)
  | '\n' :: rest => some rest
  | '\r' :: '\n' :: rest => some rest
  | _ => none

def skipComment : List Char → List Char
  | '#' :: rest => rest.dropWhile isPlain
  | s => s

/-- Skips blanks, a comment and the end of the line or of the text. -/
def lineEnd? (s : List Char) : Option (List Char) :=
  match skipComment (skipBlanks s) with
  | [] => some []
  | s => newline? s

def skipLines (s : List Char) : List Char :=
  go s.length s
where
  go : Nat → List Char → List Char
    | 0, s => s
    | fuel + 1, s =>
      match newline? (skipComment (skipBlanks s)) with
      | some rest => go fuel rest
      | none => skipBlanks s

/-! ## Strings -/

/-- The character with this number in hexadecimal digits. -/
def scalar? (digits : List Char) : Option Char := do
  let n ← hexadecimal? digits
  if h : n.isValidChar then some (Char.ofNatAux n h) else none

/-- The character an escape stands for, read behind its backslash. -/
def escape? : List Char → Option (Char × List Char)
  | 'b' :: rest => some ('\x08', rest)
  | 't' :: rest => some ('\t', rest)
  | 'n' :: rest => some ('\n', rest)
  | 'f' :: rest => some ('\x0c', rest)
  | 'r' :: rest => some ('\r', rest)
  | '"' :: rest => some ('"', rest)
  | '\\' :: rest => some ('\\', rest)
  | 'u' :: rest =>
    if 4 ≤ rest.length then (scalar? (rest.take 4)).map (·, rest.drop 4) else none
  | 'U' :: rest =>
    if 8 ≤ rest.length then (scalar? (rest.take 8)).map (·, rest.drop 8) else none
  | _ => none

def quoted (s : List Char) : Option (String × List Char) :=
  go s.length s []
where
  go : Nat → List Char → List Char → Option (String × List Char)
    | _, '"' :: rest, acc => some (String.ofList acc.reverse, rest)
    | fuel + 1, '\\' :: rest, acc => do
      let (c, rest) ← escape? rest
      go fuel rest (c :: acc)
    | fuel + 1, c :: rest, acc => if isPlain c then go fuel rest (c :: acc) else none
    | _, _, _ => none

/-- The rest of a string in single quotes, where nothing is escaped. -/
def literal (s : List Char) : Option (String × List Char) :=
  go s []
where
  go : List Char → List Char → Option (String × List Char)
    | '\'' :: rest, acc => some (String.ofList acc.reverse, rest)
    | c :: rest, acc => if isPlain c then go rest (c :: acc) else none
    | [], _ => none

def skipSpace : List Char → List Char
  | '\r' :: '\n' :: rest => skipSpace rest
  | c :: rest => if isBlank c || c == '\n' then skipSpace rest else c :: rest
  | [] => []

/-- A backslash at the end of a line also swallows the blank beginning of the next text. -/
def skipLineJoin? (s : List Char) : Option (List Char) :=
  (newline? (skipBlanks s)).map skipSpace

/-- Reads on through a string in triple quotes. Up to two quotes may stand before the closing
ones, and ends of lines are kept as line feeds. -/
def tripled (quote : Char) (escapes : Bool) (s : List Char) : Option (String × List Char) :=
  go s.length ((newline? s).getD s) []
where
  go : Nat → List Char → List Char → Option (String × List Char)
    | 0, _, _ => none
    | fuel + 1, s, acc =>
      match s with
      | [] => none
      | c :: rest =>
        if c == quote then
          match (s.takeWhile (· == quote)).length with
          | 1 => go fuel rest (c :: acc)
          | 2 => go fuel (rest.drop 1) (c :: c :: acc)
          | n =>
            let extra := min (n - 3) 2
            some (String.ofList (List.replicate extra c ++ acc).reverse, s.drop (3 + extra))
        else if escapes && c == '\\' then
          match skipLineJoin? rest with
          | some rest => go fuel rest acc
          | none => do
            let (e, rest) ← escape? rest
            go fuel rest (e :: acc)
        else
          match newline? s with
          | some rest => go fuel rest ('\n' :: acc)
          | none => if isPlain c then go fuel rest (c :: acc) else none

def string? : List Char → Option (String × List Char)
  | '"' :: '"' :: '"' :: rest => tripled '"' true rest
  | '"' :: rest => quoted rest
  | '\'' :: '\'' :: '\'' :: rest => tripled '\'' false rest
  | '\'' :: rest => literal rest
  | _ => none

/-! ## Keys -/

def isBareKey (c : Char) : Bool :=
  c.isAlphanum || c == '-' || c == '_'

def simpleKey? : List Char → Option (String × List Char)
  | '"' :: rest => quoted rest
  | '\'' :: rest => literal rest
  | s =>
    match s.takeWhile isBareKey with
    | [] => none
    | name => some (String.ofList name, s.dropWhile isBareKey)

/-- Keys have fewer parts than this, and values fewer levels. -/
def depthBound : Nat := 80

/-- The parts of a dotted key, with the blanks around each of them. -/
def key? (s : List Char) : Option (List String × List Char) :=
  go (depthBound - 1) s
where
  go : Nat → List Char → Option (List String × List Char)
    | 0, _ => none
    | parts + 1, s => do
      let (name, rest) ← simpleKey? (skipBlanks s)
      match skipBlanks rest with
      | '.' :: rest =>
        let (names, rest) ← go parts rest
        some (name :: names, rest)
      | rest => some ([name], rest)

end FrameLink.Toml
