import Patchbay.Formula.Basic
import Patchbay.Player.Program
/-!
The program itself: the player over the standard engine, and the files and
streams of the system.
-/

namespace Patchbay

/-- What the system says when it refuses a file. -/
def refusal : IO.Error → String
  | .inappropriateType _ 20 _ => notDirectoryReason
  | .inappropriateType _ 21 _ => isDirectoryReason
  | e => toString e

/-- The content of a file that could not be read. -/
def unreadFile : IO.Error → FileContent
  | .noFileOrDirectory .. => .missing
  | e => .refused (refusal e)

/-- Why a file could not be written. -/
def unwrittenFile (e : IO.Error) : FileFault :=
  match unreadFile e with
  | .refused reason => .refused reason
  | _ => .missing

/-- The files and streams of the system. -/
def Host.system : Host IO where
  readFile path := do
    try return .bytes (← IO.FS.readBinFile path).toList
    catch e => return unreadFile e
  writeFile path content := do
    try
      IO.FS.writeBinFile path ⟨content.toArray⟩
      return .ok ()
    catch e => return .error (unwrittenFile e)
  print text := do (← IO.getStdout).putStr text
  complain text := do (← IO.getStderr).putStr text

end Patchbay

def main (args : List String) : IO UInt32 :=
  Patchbay.Program.run Patchbay.Host.system args
