import Patchbay.Files.Disk
import Patchbay.Text.Base64
import Patchbay.Scene.Reading
import Patchbay.Graph.Basic
import Patchbay.Player.Settings
/-!
What stops the player.
-/

namespace Patchbay

inductive PlayerError where
  | file (path : String) (fault : FileFault)
  | settings (path : String) (fault : SettingsFault)
  | sceneText (fault : Text.Base64.Fault)
  | scene (cause : SceneError)
  | wiring (cause : Graph.ConnectionError)
  | logFilter (filter : String)
deriving DecidableEq, Repr

def PlayerError.message : PlayerError → String
  | .file path fault => s!"IO error on {path}: {fault.message}"
  | .settings path .malformed => s!"Invalid config {path}: not a record of settings"
  | .settings _ (.newer version) =>
    s!"Config version {version} is newer than supported version {Settings.currentVersion}"
  | .sceneText fault => "Scene text is not valid base64: " ++ fault.message
  | .scene cause => "Scene error: " ++ cause.message
  | .wiring cause => "Wiring error: " ++ cause.message
  | .logFilter filter => "Invalid log filter '" ++ filter ++ "': invalid filter directive"

/-- The settings that a file holds. -/
def Settings.ofFile (path : String) (content : FileContent) : Except PlayerError Settings :=
  match content.text with
  | .error e => .error (.file path e)
  | .ok text => (Settings.read text).mapError (.settings path)

end Patchbay
