import FrameLink.Bytes
import FrameLink.IoError

/-!
# Files

A directory of files, the errors of reading one of them, and the walk along a relative path.
-/

namespace FrameLink

inductive FileError
  | notFound
  | denied
  | isDirectory
  | notDirectory
  | nameTooLong
  | nulInName
  | notText
deriving DecidableEq, Repr

namespace FileError

def kind : FileError → IoErrorKind
  | .notFound => .notFound
  | .denied => .permissionDenied
  | .isDirectory => .isADirectory
  | .notDirectory => .notADirectory
  | .nameTooLong => .invalidFilename
  | .nulInName => .invalidInput
  | .notText => .invalidData

def reason : FileError → String
  | .notFound => "No such file or directory"
  | .denied => "Permission denied"
  | .isDirectory => "Is a directory"
  | .notDirectory => "Not a directory"
  | .nameTooLong => "File name too long"
  | .nulInName => "file name contained an unexpected NUL byte"
  | .notText => "stream did not contain valid UTF-8"

def code? : FileError → Option Nat
  | .notFound => some 2
  | .denied => some 13
  | .isDirectory => some 21
  | .notDirectory => some 20
  | .nameTooLong => some 36
  | .nulInName | .notText => none

def message (e : FileError) : String :=
  match e.code? with
  | some code => e.reason ++ " (os error " ++ toString code ++ ")"
  | none => e.reason

end FileError

inductive FileNode
  | file (content : Bytes)
  | directory
deriving DecidableEq, Repr

abbrev Files := List (List String × FileNode)

abbrev FileReader := String → Except FileError Bytes

namespace Files

/-- No name in a path has more bytes. -/
def nameBound : Nat := 255

/-- No path has as many bytes. -/
def pathBound : Nat := 4096

def parts (path : String) : List String :=
  (path.splitOn "/").filter fun part => part != "" && part != "."

/-- The node at a path; the empty path is the directory itself. -/
def node? (files : Files) (path : List String) : Option FileNode :=
  if path.isEmpty then some .directory else files.lookup path

def remove (files : Files) (path : String) : Files :=
  files.filter fun entry => entry.1 != parts path

/-- Puts a node at a path, and directories on the way to it. -/
def put (files : Files) (path : String) (node : FileNode) : Files :=
  let path := parts path
  let parents := (List.range path.length).filterMap fun n =>
    let parent := path.take n
    if (files.node? parent).isNone then some (parent, FileNode.directory) else none
  (path, node) :: parents ++ files.filter fun entry => entry.1 != path

def walk (files : Files) (here : List String) : List String → Except FileError (List String)
  | [] => .ok here
  | part :: rest =>
    match files.node? here with
    | some .directory =>
      if part = "" ∨ part = "." then walk files here rest
      else if part = ".." then
        if here.isEmpty then .error .notFound else walk files here.dropLast rest
      else if nameBound < part.utf8ByteSize then .error .nameTooLong
      else if (files.node? (here ++ [part])).isNone then .error .notFound
      else walk files (here ++ [part]) rest
    | _ => .error .notDirectory

/-- The content of the file at a relative path. Nothing is found outside the directory. -/
def read (files : Files) : FileReader := fun path => do
  if path.contains '\x00' then throw .nulInName
  if pathBound ≤ path.utf8ByteSize then throw .nameTooLong
  if path.isEmpty ∨ path.startsWith "/" then throw .notFound
  let found ← files.walk [] (path.splitOn "/")
  match files.node? found with
  | some (.file content) => pure content
  | some .directory => throw .isDirectory
  | none => throw .notFound

end Files

def textOfContent (content : Bytes) : Except FileError String :=
  match String.fromUTF8? (ByteArray.mk content.toArray) with
  | some text => .ok text
  | none => .error .notText

end FrameLink
