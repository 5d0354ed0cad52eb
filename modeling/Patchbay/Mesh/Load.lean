import Patchbay.Mesh.Obj
import Patchbay.Text.Utf8
import Patchbay.Files.Disk
/-!
Loading a mesh from a file.

Reading the file is done outside; here stands what becomes of the outcome.
A mesh is loaded while frames go on: a load is started with a resolved path
and asked once a frame whether it has a result.  Its worker is named after
the path, so a path with the character NUL, which no name of a worker may
have, stops the program; such paths are left out here.
-/

namespace Patchbay

/-! ## Errors -/

/-- Why a mesh could not be loaded. -/
inductive LoadError where
  | notFound (path : String)
  | unreadable (detail : String)
  | undecodable (path : String) (detail : String)
  | abandoned
deriving DecidableEq, Repr

def LoadError.message : LoadError → String
  | .notFound path => "File not found: " ++ path
  | .unreadable detail => "IO error: " ++ detail
  | .undecodable path detail => s!"Failed to decode {path}: {detail}"
  | .abandoned => "Background load ended without a result"

/-! ## Files -/

/-- The mesh in a file, given what reading the file came to. -/
def MeshData.ofFile (path : String) : FileContent → Except LoadError MeshData
  | .missing => .error (.notFound path)
  | .refused reason => .error (.unreadable s!"{path}: {reason}")
  | .bytes content =>
    match Text.Utf8.decode content with
    | .error _ => .error (.unreadable s!"{path}: stream did not contain valid UTF-8")
    | .ok text =>
      match Obj.parse text with
      | .ok mesh => .ok mesh
      | .error fault => .error (.undecodable path fault.message)

/-- Where an asset lies: a relative path counts from the root, when there is one. -/
def resolveAsset (root : Option String) (path : String) : String :=
  match root with
  | some root => Path.join root path
  | none => path

/-! ## Loads under way -/

/-- The answer to whether a load has a result. -/
inductive LoadPoll (α : Type) where
  | pending
  | ready (result : α)
  | failed (error : LoadError)
deriving DecidableEq, Repr

/-- The result, once there is one; a load that ended without one has been abandoned. -/
def LoadPoll.ofOutcome {α : Type} : Option α → LoadPoll α
  | some result => .ready result
  | none => .failed .abandoned

/-- A load: the path as its node knows it, where the file lies, and how many loads the node has
started before. -/
structure Load where
  label : String
  file : String
  number : Nat
deriving DecidableEq, Inhabited, Repr

/-- What is known of a load from outside: it could not be started, or it was and gives this
answer. -/
inductive LoadReport where
  | refused (error : LoadError)
  | started (answer : LoadPoll (Except LoadError MeshData))

namespace LoadReport

def pending : LoadReport := started .pending

def ready (result : Except LoadError MeshData) : LoadReport := started (.ready result)

/-- Why the load could not be started, if so. -/
def refusal? : LoadReport → Option LoadError
  | refused e => some e
  | started _ => none

/-- The answer of a load that is under way; there is none from one that was not started. -/
def answer : LoadReport → LoadPoll (Except LoadError MeshData)
  | refused _ => .pending
  | started answer => answer

end LoadReport

end Patchbay
