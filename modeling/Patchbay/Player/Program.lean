import Patchbay.Graph.Summary
import Patchbay.Player.CommandLine
import Patchbay.Player.Demo
import Patchbay.Player.LogFilter
import Patchbay.Player.Run
import Patchbay.Player.SceneFile
/-!
The player as a program.

From arguments to an exit code, over any host.  Arguments that make no
command give code two, and a failure gives code one.
-/

namespace Patchbay.Program

/-- The settings file that is looked for when none is named. -/
def settingsFile : String := "ravel.ron"

def versionText : String := "ravel 0.1.0\n"

def helpText : String :=
  "Headless player for ravel node graphs\n\n" ++
  "Usage: ravel [--config CONFIG] COMMAND\n\n" ++
  "Commands:\n" ++
  "  run SCENE [--frames N] [--dt-ms N]                 Step a saved scene and print its node views\n" ++
  "  demo OUT [--mesh FILE] [--run] [--frames N] [--dt-ms N]\n" ++
  "                                                     Write the built-in demo scene\n" ++
  "  inspect SCENE [--pretty]                           Print a scene's nodes and edges as JSON\n"

variable [Formula.Engine] {m : Type → Type} [Monad m]

/-- Steps that end at the first error. -/
abbrev Steps (m : Type → Type) := ExceptT PlayerError m

/-- Reads the settings from the file named, or from the usual file when there is one. -/
def settings (host : Host m) : Option String → Steps m Settings
  | some path => do ExceptT.mk (pure (Settings.ofFile path (← host.readFile path)))
  | none => do
    match ← host.readFile settingsFile with
    | .missing => return Settings.default
    | .refused reason =>
      if reason = isDirectoryReason then return Settings.default
      else throw (.file settingsFile (.refused reason))
    | content => ExceptT.mk (pure (Settings.ofFile settingsFile content))

def readScene (host : Host m) (path : String) : Steps m Graph := do
  ExceptT.mk (pure (SceneFile.read path (← host.readFile path)))

def writeScene (host : Host m) (path : String) (g : Graph) : Steps m Unit := do
  match ← host.writeFile path (Text.Utf8.encode (SceneFile.encode g.save)) with
  | .ok () => return ()
  | .error e => throw (.file path e)

/-- The demo scene.  No load is done before the scene is complete. -/
def buildDemo (mesh : Option String) : Except PlayerError Graph :=
  (Demo.build Graph.Poll.none mesh).mapError .wiring

def execute (host : Host m) (s : Settings) : Command → Steps m Unit
  | .run scene frames millis => do
    let g ← readScene host scene
    let _ ← ExceptT.lift (Run.run host (s.override frames millis) g)
  | .demo out mesh runs frames millis => do
    let g ← ExceptT.mk (pure (buildDemo mesh))
    writeScene host out g
    if runs then
      let _ ← ExceptT.lift (Run.run host (s.override frames millis) g)
  | .inspect scene indented => do
    let g ← readScene host scene
    host.print (g.summary.text indented)

/-- Reads the settings, checks the filter among them, and executes the command. -/
def perform (host : Host m) (i : Invocation) : Steps m Unit := do
  let s ← settings host i.settingsPath
  unless LogFilter.isValid s.logFilter do throw (.logFilter s.logFilter)
  execute host s i.command

/-- Does what the arguments ask for, and gives the exit code. -/
def run (host : Host m) (arguments : List String) : m UInt32 := do
  match Invocation.ofArguments arguments with
  | .error .help => host.print helpText; return 0
  | .error .version => host.print versionText; return 0
  | .error (.misuse cause) => host.complain s!"error: {cause.message}\n"; return 2
  | .ok i =>
    match ← (perform host i).run with
    | .ok () => return 0
    | .error e => host.complain s!"ravel: {e.message}\n"; return 1

end Patchbay.Program
