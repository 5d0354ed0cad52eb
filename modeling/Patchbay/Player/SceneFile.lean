import Patchbay.Graph.Scene
import Patchbay.Player.Error
/-!
Scene files.

A scene file holds the bytes of a saved scene as text in base64.  Blanks and
line breaks in it mean nothing.  The graph read from a file bears the name
of the file without its extension.
-/

namespace Patchbay.SceneFile

open Text

/-- The text of a scene file. -/
def encode (bytes : List UInt8) : String := Base64.encode bytes ++ "\n"

/-- The bytes that the text of a scene file stands for. -/
def decode (text : String) : Except PlayerError (List UInt8) :=
  (Base64.decodeBytes (Utf8.encode (String.join (words text)))).mapError .sceneText

/-- The name of the graph in a file. -/
def graphName (path : String) : String := (Path.fileStem? path).getD "scene"

variable [Formula.Engine]

/-- The graph in a file. -/
def read (path : String) (content : FileContent) : Except PlayerError Graph := do
  let text ← content.text.mapError (.file path)
  let bytes ← decode text
  match (Graph.empty (graphName path)).load bytes with
  | (.ok _, g) => return g
  | (.error e, _) => .error (.scene e)

end Patchbay.SceneFile
