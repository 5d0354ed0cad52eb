import Patchbay.Text.Record.Tree
/-!
Settings of the player.

They say how many frames are run, how long a frame lasts, how often the
views are printed, where assets lie, and what is logged.  Counts have 64
bits and the version 32.  A settings file is a record: a field that is
missing keeps its default, and one that is not known is passed over.
-/

namespace Patchbay

open Text

structure Settings where
  version : Nat
  frames : Nat
  frameMillis : Nat
  logFilter : String
  assetsDir : Option String
  printEvery : Nat
deriving DecidableEq, Repr

/-- Why a text gives no settings. -/
inductive SettingsFault where
  | malformed
  | newer (version : Nat)
deriving DecidableEq, Repr

namespace Settings

/-- The newest version that is understood. -/
def currentVersion : Nat := 1

def default : Settings where
  version := currentVersion
  frames := 60
  frameMillis := 16
  logFilter := "ravel_graph=info,ravel_player=info"
  assetsDir := none
  printEvery := 0

instance : Inhabited Settings := ⟨default⟩

/-- How long a frame lasts, in nanoseconds. -/
def frameNanos (s : Settings) : Nat := s.frameMillis * 1000000

/-- What the command line sets, in place of what the settings say. -/
def override (s : Settings) (frames millis : Option Nat) : Settings :=
  { s with frames := frames.getD s.frames, frameMillis := millis.getD s.frameMillis }

/-! ## Reading -/

/-- The name that the record may bear. -/
def recordName : String := "PlayerConfig"

/-- A count of the named type. -/
def count? (type : String) (limit : Nat) : Record.Tree → Option Nat
  | .number (.integer n written) =>
    if 0 ≤ n ∧ n ≤ limit ∧ (written.all (· == type)) then some n.toNat else none
  | _ => none

def count64? : Record.Tree → Option Nat := count? "u64" 0xffffffffffffffff

def text? : Record.Tree → Option String
  | .text s => some s
  | _ => none

/-- A text that may be missing; with `bare` it needs no mark of its presence. -/
def optionalText? (bare : Bool) : Record.Tree → Option (Option String)
  | .word "None" => some none
  | .some value => (text? value).map some
  | value => if bare then (text? value).map some else none

/-- The settings with one field set; there are none when its value is of the wrong kind. -/
def set? (bare : Bool) (s : Settings) (field : String × Record.Tree) : Option Settings :=
  match field with
  | ("version", v) => (count? "u32" 0xffffffff v).map fun version => { s with version }
  | ("frames", v) => (count64? v).map fun frames => { s with frames }
  | ("frame_dt_ms", v) => (count64? v).map fun frameMillis => { s with frameMillis }
  | ("log_filter", v) => (text? v).map fun logFilter => { s with logFilter }
  | ("assets_dir", v) => (optionalText? bare v).map fun assetsDir => { s with assetsDir }
  | ("print_every", v) => (count64? v).map fun printEvery => { s with printEvery }
  | _ => some s

/-- The fields that settings have. -/
def fieldNames : List String :=
  ["version", "frames", "frame_dt_ms", "log_filter", "assets_dir", "print_every"]

/-- The settings that fields give.  None of them may be given twice. -/
def ofFields? (bare : Bool) (fields : List (String × Record.Tree)) : Option Settings :=
  if ((fields.map (·.1)).filter fieldNames.contains).Nodup then
    fields.foldlM (set? bare) default
  else none

/-- Whether a record may bear a name. -/
def admitsName (features : List Record.Feature) : Option String → Bool
  | some name => name == recordName
  | none => !features.contains .explicitNames

def ofDocument? (d : Record.Document) : Option Settings :=
  match d.tree with
  | .record name fields =>
    if admitsName d.features name then ofFields? (d.features.contains .implicitSome) fields
    else none
  | .tuple name [] => if admitsName d.features name then some default else none
  | _ => none

/-- Reads settings.  Those of a newer version are refused. -/
def read (text : String) : Except SettingsFault Settings :=
  match (Record.Document.read? text).bind ofDocument? with
  | none => .error .malformed
  | some s => if currentVersion < s.version then .error (.newer s.version) else .ok s

/-! ## Writing -/

/-- The fields as they are written. -/
def writtenFields (s : Settings) : List (String × String) :=
  [("version", toString s.version), ("frames", toString s.frames),
    ("frame_dt_ms", toString s.frameMillis), ("log_filter", Record.quote s.logFilter),
    ("assets_dir", match s.assetsDir with
      | some dir => s!"Some({Record.quote dir})"
      | none => "None"),
    ("print_every", toString s.printEvery)]

/-- The settings as a record, one field a line. -/
def text (s : Settings) : String :=
  let line (field : String × String) : String := s!"    {field.1}: {field.2},\n"
  recordName ++ "(\n" ++ String.join (s.writtenFields.map line) ++ ")"

end Settings

end Patchbay
