import Patchbay.Files.Path
import Patchbay.Text.Utf8
/-!
Files, and a disk held in memory.

`FileContent` is what reading a file comes to.  A `Disk` is a set of
directories and of files with their bytes; a path is walked name by name
from the working directory or from the top, and every name but the last
must be that of a directory.
-/

namespace Patchbay

/-- What reading a file comes to. -/
inductive FileContent where
  | bytes (content : List UInt8)
  | missing
  | refused (reason : String)
deriving DecidableEq, Repr

/-- Why a file is not read or written. -/
def isDirectoryReason : String := "Is a directory (os error 21)"

def notDirectoryReason : String := "Not a directory (os error 20)"

/-- Why a file cannot be used. -/
inductive FileFault where
  | missing
  | refused (reason : String)
  | notText
deriving DecidableEq, Repr

def FileFault.message : FileFault → String
  | .missing => "No such file or directory (os error 2)"
  | .refused reason => reason
  | .notText => "stream did not contain valid UTF-8"

/-- The text that a file holds. -/
def FileContent.text : FileContent → Except FileFault String
  | .bytes content =>
    match Text.Utf8.decode content with
    | .ok text => .ok text
    | .error _ => .error .notText
  | .missing => .error .missing
  | .refused reason => .error (.refused reason)

/-- A place on a disk: the names that lead to it from the working directory, or from the
top when the first one is a slash. -/
abbrev Place := List String

/-- A disk held in memory.  The working directory always exists. -/
structure Disk where
  directories : List Place
  files : List (Place × List UInt8)
deriving DecidableEq, Inhabited

namespace Disk

def isDirectory (d : Disk) (p : Place) : Bool := p.isEmpty || d.directories.contains p

def file? (d : Disk) (p : Place) : Option (List UInt8) :=
  (d.files.find? (·.1 == p)).map (·.2)

/-- The directory above a place; there is none above the top. -/
def parent (p : Place) : Place := if p = ["/"] then p else p.dropLast

/-- Where a walk over names ends. -/
inductive Found where
  | directory (p : Place)
  | file (p : Place) (content : List UInt8)
  /-- Nothing has the last name, but the directory it would lie in exists. -/
  | absent (p : Place)
  | missing
  | blocked
deriving DecidableEq

/-- Walks over names from a directory. -/
def walk (d : Disk) (here : Place) : List String → Found
  | [] => .directory here
  | name :: rest =>
    if name = "" ∨ name = "." then walk d here rest
    else if name = ".." then walk d (parent here) rest
    else
      let next := here ++ [name]
      if d.isDirectory next then walk d next rest
      else
        match d.file? next, rest with
        | some content, [] => .file next content
        | some _, _ :: _ => .blocked
        | none, [] => .absent next
        | none, _ :: _ => .missing

def find (d : Disk) (path : String) : Found :=
  if path.isEmpty then .missing
  else d.walk (if Path.isAbsolute path then ["/"] else []) (Path.names path)

/-- Reads a file. -/
def read (d : Disk) (path : String) : FileContent :=
  match d.find path with
  | .file _ content => .bytes content
  | .directory _ => .refused isDirectoryReason
  | .blocked => .refused notDirectoryReason
  | .absent _ | .missing => .missing

/-- Writes a file, which replaces one of the same place. -/
def write (d : Disk) (path : String) (content : List UInt8) : Except FileFault Disk :=
  match d.find path with
  | .file p _ =>
    .ok { d with files := d.files.map fun f => if f.1 = p then (p, content) else f }
  | .absent p => .ok { d with files := d.files ++ [(p, content)] }
  | .directory _ => .error (.refused isDirectoryReason)
  | .blocked => .error (.refused notDirectoryReason)
  | .missing => .error .missing

end Disk

end Patchbay
