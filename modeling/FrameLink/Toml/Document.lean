import FrameLink.Toml.Scalar

/-!
# Reading TOML

A document is a list of lines: comments, headers of tables and of array elements, and keys with
values. Values nest in arrays and inline tables, to a bounded depth. `parse?` answers the entries
of the root table, or nothing for a text that breaks any rule.
-/

namespace FrameLink.Toml

/-- The elements of an array, read behind its opening bracket. -/
def arrayItems? (item : List Char → Option (Item × List Char)) (s : List Char) :
    Option (List Item × List Char) :=
  go s.length (skipLines s)
where
  go : Nat → List Char → Option (List Item × List Char)
    | _, ']' :: rest => some ([], rest)
    | 0, _ => none
    | fuel + 1, s => do
      let (first, rest) ← item s
      match skipLines rest with
      | ',' :: rest =>
        let (items, rest) ← go fuel (skipLines rest)
        some (first :: items, rest)
      | ']' :: rest => some ([first], rest)
      | _ => none

/-- One key with its value: the tables on the way, the last part of the key, and the value. -/
def assignment? (item : List Char → Option (Item × List Char)) (s : List Char) :
    Option ((List String × String × Item) × List Char) := do
  let (path, rest) ← key? s
  let rest ← expect? '=' rest
  let (value, rest) ← item (skipBlanks rest)
  some ((path.dropLast, path.getLastD "", value), rest)

/-- The entries of an inline table, read behind its opening brace. No comma stands last. -/
def inlineEntries? (item : List Char → Option (Item × List Char)) (s : List Char) :
    Option (Entries × List Char) :=
  match skipBlanks s with
  | '}' :: rest => some ([], rest)
  | s => go s.length s []
where
  go : Nat → List Char → Entries → Option (Entries × List Char)
    | 0, _, _ => none
    | fuel + 1, s, entries => do
      let ((path, key, value), rest) ← assignment? item s
      let entries ← entries.insertDotted path key value .inline
      match skipBlanks rest with
      | ',' :: rest => go fuel rest entries
      | '}' :: rest => some (entries, rest)
      | _ => none

/-- A value with at most `depth` levels of arrays and inline tables. -/
def item? : Nat → List Char → Option (Item × List Char)
  | depth + 1, '[' :: rest => do
    let (items, rest) ← arrayItems? (item? depth) rest
    some (.array items, rest)
  | depth + 1, '{' :: rest => do
    let (entries, rest) ← inlineEntries? (item? depth) rest
    some (.table .inline entries, rest)
  | _, s => scalarItem? s

/-! ## Lines -/

/-- The root table so far, and the path of the table that is open. -/
structure Progress where
  root : Entries
  header : List String

/-- The path in the brackets of a header, read behind the opening ones. -/
def headerPath? (closing : List Char) (s : List Char) : Option (List String × List Char) := do
  let (path, rest) ← key? s
  if closing.isPrefixOf rest then do
    let rest ← lineEnd? (rest.drop closing.length)
    some (path, rest)
  else none

def Progress.enter (p : Progress) (path : List String)
    (opens : String → Entries → Option Entries) : Option Progress := do
  let root ← p.root.atHeader path.dropLast fun _ => opens (path.getLastD "")
  some ⟨root, path⟩

def line? (p : Progress) (s : List Char) : Option (Progress × List Char) :=
  match s with
  | '[' :: '[' :: rest => do
    let (path, rest) ← headerPath? [']', ']'] rest
    let p ← p.enter path fun key entries => entries.openElement key
    some (p, rest)
  | '[' :: rest => do
    let (path, rest) ← headerPath? [']'] rest
    let p ← p.enter path fun key entries => entries.openTable key
    some (p, rest)
  | s => do
    let ((path, key, value), rest) ← assignment? (item? (depthBound - 1)) s
    let rest ← lineEnd? rest
    let root ← p.root.atHeader p.header fun kind entries =>
      entries.insertDotted path key value kind
    some ({ p with root }, rest)

def lines? : Nat → Progress → List Char → Option Entries
  | 0, _, _ => none
  | fuel + 1, p, s =>
    match skipBlanks s with
    | [] => some p.root
    | s =>
      match lineEnd? s with
      | some rest => lines? fuel p rest
      | none => do
        let (p, rest) ← line? p s
        lines? fuel p rest

/-- The root table of a document. A mark of the byte order may stand first. -/
def parse? (text : String) : Option Entries :=
  let s := match text.toList with
    | '\ufeff' :: rest => rest
    | s => s
  lines? (s.length + 1) ⟨[], []⟩ s

end FrameLink.Toml
