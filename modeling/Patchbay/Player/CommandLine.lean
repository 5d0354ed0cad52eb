import Patchbay.Decimal.Reading
/-!
The command line of the player.

A command runs a scene, writes the demo scene, or shows what a scene holds.
Options stand before or behind the words of a command.  Arguments are read
from the left, and the first one that makes no sense, or asks for help,
ends the reading.
-/

namespace Patchbay

/-- What the player is asked to do. -/
inductive Command where
  | run (scene : String) (frames millis : Option Nat)
  | demo (out : String) (mesh : Option String) (runs : Bool) (frames millis : Option Nat)
  | inspect (scene : String) (indented : Bool)
deriving DecidableEq, Repr

/-- A command, and the settings file that is named with it. -/
structure Invocation where
  settingsPath : Option String
  command : Command
deriving DecidableEq, Repr

/-- Why arguments make no command. -/
inductive Misuse where
  | noCommand
  | unknownCommand (word : String)
  | unexpected (argument : String)
  | repeatedOption (option : String)
  | missingValue (option : String)
  | badValue (option value : String)
  | missingWord (what : String)
deriving DecidableEq, Repr

/-- What ends the reading of arguments. -/
inductive CommandLineStop where
  | help
  | version
  | misuse (cause : Misuse)
deriving DecidableEq, Repr

def Misuse.message : Misuse → String
  | .noCommand => "a command is required"
  | .unknownCommand word => "unrecognized subcommand '" ++ word ++ "'"
  | .unexpected argument => "unexpected argument '" ++ argument ++ "' found"
  | .repeatedOption option => "the argument '--" ++ option ++ "' cannot be used multiple times"
  | .missingValue option => "a value is required for '--" ++ option ++ "' but none was supplied"
  | .badValue option value => "invalid value '" ++ value ++ "' for '" ++ option ++ "'"
  | .missingWord what => "the argument '" ++ what ++ "' is required"

namespace CommandLine

abbrev Reading := Except CommandLineStop

def misuse {α : Type} (m : Misuse) : Reading α := .error (.misuse m)

/-! ## Options -/

inductive Switch where
  | config | frames | millis | mesh | run | pretty | help | version
deriving DecidableEq, Repr

namespace Switch

def all : List Switch := [config, frames, millis, mesh, run, pretty, help, version]

/-- The name behind two dashes. -/
def long : Switch → String
  | config => "config"
  | frames => "frames"
  | millis => "dt-ms"
  | mesh => "mesh"
  | run => "run"
  | pretty => "pretty"
  | help => "help"
  | version => "version"

/-- The letter behind one dash. -/
def short? : Switch → Option Char
  | config => some 'c'
  | help => some 'h'
  | version => some 'V'
  | _ => none

def takesValue : Switch → Bool
  | config | frames | millis | mesh => true
  | run | pretty | help | version => false

/-- Whether a value is of the right kind: a count, or a path that is not empty. -/
def admits (s : Switch) (value : String) : Bool :=
  match s with
  | frames | millis => (Decimal.readNat64 value).toOption.isSome
  | config => !value.isEmpty
  | _ => true

end Switch

/-! ## Arguments -/

/-- What has been read: options with their values, and words, the last one first. -/
structure Given where
  options : List (Switch × String)
  words : List String

namespace Given

def empty : Given := ⟨[], []⟩

def value? (g : Given) (s : Switch) : Option String := g.options.lookup s

def has (g : Given) (s : Switch) : Bool := (g.value? s).isSome

def count? (g : Given) (s : Switch) : Option Nat :=
  (g.value? s).bind fun v => (Decimal.readNat64 v).toOption

/-- Takes in an option.  None may be repeated, and each value has to be of the right kind;
the requests for help and for the version end the reading. -/
def add (g : Given) (s : Switch) (value : String) : Reading Given :=
  if s = .help then .error .help
  else if s = .version then .error .version
  else if g.has s then misuse (.repeatedOption s.long)
  else if s.admits value then .ok { g with options := (s, value) :: g.options }
  else misuse (.badValue s.long value)

/-- Takes in a word, the one the command has room for, which must not be empty. -/
def addWord (g : Given) (word : String) : Reading Given :=
  if !g.words.isEmpty then misuse (.unexpected word)
  else if word.isEmpty then misuse (.badValue "path" word)
  else .ok { g with words := [word] }

end Given

/-- What an argument looks like: two dashes and a name, perhaps with a value behind an equals
sign; a dash, a letter, and more; or a word. -/
inductive Shape where
  | long (name : String) (value : Option String)
  | short (letter : Char) (more : List Char)
  | dashes
  | word

def shape (argument : String) : Shape :=
  match argument.toList with
  | ['-', '-'] => .dashes
  | '-' :: '-' :: cs =>
    let (name, rest) := cs.span (· != '=')
    .long (String.ofList name) (match rest with | [] => none | _ :: v => some (String.ofList v))
  | '-' :: c :: more => .short c more
  | _ => .word

/-- The value that is attached to the letter of an option. -/
def attached : List Char → Option String
  | [] => none
  | '=' :: value => some (String.ofList value)
  | value => some (String.ofList value)

/-- Where the reading stands: between arguments, behind an option that waits for its value,
or behind the dashes after which everything is a word. -/
inductive Awaiting where
  | argument
  | value (s : Switch)
  | words

/-- Takes in an option with the value attached to it, if any. -/
def takeOption (g : Given) (argument : String) (s : Switch) (value : Option String) :
    Reading (Given × Awaiting) :=
  match s.takesValue, value with
  | true, none =>
    if g.has s then misuse (.repeatedOption s.long) else .ok (g, .value s)
  | true, some v => (g.add s v).map (·, .argument)
  | false, none => (g.add s "").map (·, .argument)
  | false, some _ => misuse (.unexpected argument)

/-- One argument that is no value, by its shape. -/
def takeArgument (switches : List Switch) (g : Given) (argument : String) :
    Reading (Given × Awaiting) :=
  match shape argument with
  | .dashes => .ok (g, .words)
  | .word => (g.addWord argument).map (·, .argument)
  | .long name value =>
    match switches.find? (·.long == name) with
    | some s => takeOption g argument s value
    | none => misuse (.unexpected argument)
  | .short letter more =>
    match switches.find? (·.short? == some letter) with
    | some s => takeOption g argument s (if s.takesValue then attached more else none)
    | none => misuse (.unexpected argument)

/-- Whether an argument can be the value of the option in front of it. -/
def isValue (argument : String) : Bool :=
  match shape argument with
  | .word => true
  | _ => false

/-- Reads the arguments of a command. -/
def readArguments (switches : List Switch) : Awaiting → Given → List String → Reading Given
  | .value s, _, [] => misuse (.missingValue s.long)
  | _, g, [] => .ok g
  | .value s, g, a :: rest =>
    if isValue a then do readArguments switches .argument (← g.add s a) rest
    else misuse (.missingValue s.long)
  | .words, g, a :: rest => do readArguments switches .words (← g.addWord a) rest
  | .argument, g, a :: rest => do
    let (g, awaiting) ← takeArgument switches g a
    readArguments switches awaiting g rest

/-- Reads the arguments in front of a command: what they give, the command, and the rest. -/
def readFront (switches : List Switch) :
    Awaiting → Given → List String → Reading (Given × String × List String)
  | .value s, _, [] => misuse (.missingValue s.long)
  | _, _, [] => misuse .noCommand
  | .value s, g, a :: rest =>
    if isValue a then do readFront switches .argument (← g.add s a) rest
    else misuse (.missingValue s.long)
  | .words, _, a :: _ => misuse (.unexpected a)
  | .argument, g, a :: rest =>
    if isValue a then .ok (g, a, rest)
    else do
      let (g, awaiting) ← takeArgument switches g a
      readFront switches awaiting g rest

/-! ## Commands -/

/-- The word that a command cannot do without. -/
def Given.theWord (g : Given) (what : String) : Reading String :=
  match g.words with
  | w :: _ => .ok w
  | [] => misuse (.missingWord what)

def runSwitches : List Switch := [.config, .frames, .millis, .help]

def demoSwitches : List Switch := [.config, .mesh, .run, .frames, .millis, .help]

def inspectSwitches : List Switch := [.config, .pretty, .help]

/-- The names of the commands. -/
def commandNames : List String := ["run", "demo", "inspect", "help"]

/-- What a command makes of its arguments. -/
def readCommand (name : String) (arguments : List String) : Reading (Given × Command) := do
  match name with
  | "run" =>
    let g ← readArguments runSwitches .argument .empty arguments
    return (g, .run (← g.theWord "SCENE") (g.count? .frames) (g.count? .millis))
  | "demo" =>
    let g ← readArguments demoSwitches .argument .empty arguments
    return (g, .demo (← g.theWord "OUT") (g.value? .mesh) (g.has .run) (g.count? .frames)
      (g.count? .millis))
  | "inspect" =>
    let g ← readArguments inspectSwitches .argument .empty arguments
    return (g, .inspect (← g.theWord "SCENE") (g.has .pretty))
  | "help" =>
    match arguments with
    | [] => .error .help
    | [a] => if commandNames.contains a then .error .help else misuse (.unknownCommand a)
    | a :: _ => misuse (.unknownCommand a)
  | _ => misuse (.unknownCommand name)

end CommandLine

open CommandLine in
/-- What arguments ask for.  A settings file that is named behind the command counts more than
one in front of it. -/
def Invocation.ofArguments (arguments : List String) : Except CommandLineStop Invocation := do
  let (front, name, rest) ← readFront [.config, .help, .version] .argument .empty arguments
  let (g, command) ← readCommand name rest
  return ⟨g.value? .config <|> front.value? .config, command⟩

end Patchbay
