/-!
# TOML documents as trees

A table remembers how it came about, since that decides how it may still be extended: dotted keys
extend only tables that dotted keys or headers implied, and a header opens only a table that
headers implied.
-/

namespace FrameLink.Toml

inductive TableKind
  /-- Written in braces, and closed with them. -/
  | inline
  /-- Opened by a header of its own. -/
  | header
  /-- Named on the way by the header of another table. -/
  | implied
  /-- Named on the way by a dotted key. -/
  | dotted
deriving DecidableEq, Repr

/-- A value, a table or an array of tables. Of floats and dates only the type is kept. -/
inductive Item
  | text (value : String)
  | integer (value : Int)
  | float
  | boolean (value : Bool)
  | datetime
  | array (items : List Item)
  | table (kind : TableKind) (entries : List (String × Item))
  | tables (all : List (List (String × Item)))

abbrev Entries := List (String × Item)

namespace Entries

def replace (entries : Entries) (key : String) (item : Item) : Entries :=
  entries.map fun entry => if entry.1 == key then (key, item) else entry

/-- Applies `f` to the table at the end of a path. Tables that are missing on the way are made
with the kind `missing`; of the others only those of a kind that `passes` are entered, and of an
array of tables the last one. -/
def atPath (missing : TableKind) (passes : TableKind → Bool)
    (f : TableKind → Entries → Option Entries) :
    List String → TableKind → Entries → Option Entries
  | [], kind, entries => f kind entries
  | key :: path, _, entries =>
    match entries.lookup key with
    | none => do
      let inner ← atPath missing passes f path missing []
      some (entries ++ [(key, .table missing inner)])
    | some (.table kind inner) =>
      if passes kind then do
        let inner ← atPath missing passes f path kind inner
        some (entries.replace key (.table kind inner))
      else none
    | some (.tables all) =>
      match all.getLast? with
      | none => none
      | some last => do
        let last ← atPath missing passes f path .header last
        some (entries.replace key (.tables (all.dropLast ++ [last])))
    | some _ => none

/-- Applies `f` to the table a header path leads to. -/
def atHeader (path : List String) (f : TableKind → Entries → Option Entries)
    (entries : Entries) : Option Entries :=
  atPath .implied (· != .inline) f path .header entries

/-- Puts an item under a dotted key of a table. The last table on the way has to be one that
dotted keys made. -/
def insertDotted (path : List String) (key : String) (item : Item) (kind : TableKind)
    (entries : Entries) : Option Entries :=
  atPath .dotted (fun kind => kind == .implied || kind == .dotted) (fun last entries =>
    if (path.isEmpty || last == .dotted) && (entries.lookup key).isNone then
      some (entries ++ [(key, item)])
    else none) path kind entries

def openTable (key : String) (entries : Entries) : Option Entries :=
  match entries.lookup key with
  | none => some (entries ++ [(key, .table .header [])])
  | some (.table .implied inner) => some (entries.replace key (.table .header inner))
  | some _ => none

def openElement (key : String) (entries : Entries) : Option Entries :=
  match entries.lookup key with
  | none => some (entries ++ [(key, .tables [[]])])
  | some (.tables all) => some (entries.replace key (.tables (all ++ [[]])))
  | some _ => none

end Entries

end FrameLink.Toml
