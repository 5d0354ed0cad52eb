import Patchbay.Text.Blank
/-!
Paths as texts.

A path is a row of names between slashes; one that starts with a slash is
absolute.  Joining puts one path below another.
-/

namespace Patchbay.Path

def isAbsolute (path : String) : Bool := path.startsWith "/"

/-- A relative path below another one. -/
def below (root path : String) : String :=
  if root.isEmpty || root.endsWith "/" then root ++ path else root ++ "/" ++ path

/-- A path below another one; an absolute path stands for itself. -/
def join (root path : String) : String := if isAbsolute path then path else below root path

/-- The names between the slashes, empty ones included. -/
def names (path : String) : List String := Text.splitAt '/' path

/-- The last name of a path, when it ends in one. -/
def fileName? (path : String) : Option String :=
  let used := (names path).filter fun n => !n.isEmpty && n != "."
  match used.getLast? with
  | some ".." | none => none
  | some name => some name

/-- A name without its extension; a point at the front starts none. -/
def stem (name : String) : String :=
  match (Text.splitAt '.' name).reverse with
  | _ :: front@(_ :: _) =>
    let stem := String.intercalate "." front.reverse
    if stem.isEmpty then name else stem
  | _ => name

/-- The last name of a path without its extension. -/
def fileStem? (path : String) : Option String := (fileName? path).map stem

end Patchbay.Path
