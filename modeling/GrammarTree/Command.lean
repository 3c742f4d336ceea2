/-
# The command line

What the program does for a request, as a function of the files it can get at: the text it prints and
the number it ends with.
-/
import GrammarTree.Command.Arguments
import GrammarTree.Difference
import GrammarTree.Parse
import GrammarTree.Settings
import GrammarTree.Token.Json
import GrammarTree.Token.Stream

namespace GrammarTree.Command

/-- How a run ends. -/
inductive Ending where
  /-- All is well. -/
  | done
  /-- A file or the settings cannot be read. -/
  | readFailure
  /-- The call is wrong. -/
  | misuse
  /-- A file is no grammar. -/
  | badGrammar
  /-- Two grammars differ. -/
  | different
deriving DecidableEq, Repr

/-- The number that an ending is known by. -/
def Ending.code : Ending → Nat
  | done => 0
  | readFailure => 1
  | misuse => 2
  | badGrammar => 3
  | different => 4

/-- What a run comes to. -/
structure Outcome where
  /-- How it ends. -/
  ending : Ending
  /-- What it prints. -/
  output : String
deriving DecidableEq, Repr

/-- The name and the version of the program. -/
def version : String := "ebnf 0.1.0"

/-- An outcome with a line of output. -/
def line (ending : Ending) (text : String) : Outcome := ⟨ending, text ++ "\n"⟩

/-- The text of a file that has to be named. -/
def readSource (files : FileAccess) : Option String → Except Outcome String
  | none => .error (line .misuse "No syntax file given!")
  | some path =>
    match files.read path with
    | .ok text => .ok text
    | .error _ => .error (line .readFailure ("Can not read syntax file '" ++ path ++ "'!"))

/-- The grammar of a file. -/
def readGrammar (files : FileAccess) (path : Option String) : Except Outcome Node := do
  match parse (← readSource files path) with
  | .ok t => return t
  | .error e => throw (line .badGrammar ("Syntax error: " ++ e.message))

/-- The layers that a call adds to the defaults. -/
def layers (config : Option String) (indent : Option Nat) : List Settings.Layer :=
  (config.map Settings.Layer.file).toList ++
    (indent.map fun n => .override "text.indentation" (.scalar none (.integer n))).toList

/-- Renders a grammar. -/
def render (files : FileAccess) (path format config : Option String) (indent : Option Nat) :
    Except Outcome Outcome := do
  let settings ← match Settings.load files (layers config indent) with
    | .ok settings => pure settings
    | .error e => throw (line .readFailure ("Can not load configuration: " ++ e.message))
  let registry := settings.registry
  let format := format.getD settings.format
  if !registry.has format then
    throw (line .misuse ("Unknown format '" ++ format ++ "'! Available formats: " ++
      ", ".intercalate registry.names))
  match registry.render (← readGrammar files path) format with
  | .ok text => return ⟨.done, text⟩
  | .error e => throw (line .readFailure e.message)

/-- Writes out tokens. -/
def tokens (files : FileAccess) (path : Option String) : Except Outcome Outcome := do
  match tokenize (← readSource files path) with
  | .ok ts => return line .done (Json.array (ts.map Token.toJson)).pretty
  | .error e => throw (line .badGrammar ("Syntax error: " ++ e.message))

/-- Compares two grammars. -/
def compare (files : FileAccess) (path other : Option String) : Except Outcome Outcome := do
  let a ← readGrammar files path
  let b ← readGrammar files other
  match differences a b with
  | [] => return line .done "Grammars are equivalent."
  | found =>
    return line .different
      (toString found.length ++ " difference(s):\n" ++ Difference.report found)

/-- A format's line in the list of formats. -/
def formatLine (f : Format) : String :=
  "  " ++ f.name ++ Outline.spaces (10 - f.name.length) ++ " " ++ f.description ++ "\n"

/-- Lists the formats. -/
def listFormats : Outcome :=
  ⟨.done, "Available formats:\n\n" ++
    String.join (Registry.defaults.formats.entries.map fun (_, f) => formatLine f)⟩

/-- An outcome, whichever way it was reached. -/
def settle : Except Outcome Outcome → Outcome
  | .ok outcome => outcome
  | .error outcome => outcome

/-- What comes of a request. -/
def run (files : FileAccess) : Request → Outcome
  | .version => line .done version
  | .render path format config indent => settle (render files path format config indent)
  | .tokens path => settle (tokens files path)
  | .compare path other => settle (compare files path other)
  | .listFormats => listFormats

/-- What comes of a call with some arguments. -/
def execute (files : FileAccess) (args : List String) : Outcome :=
  match Request.read? args with
  | some request => run files request
  | none => ⟨.misuse, ""⟩

/-- The names of all files that a request may look at. -/
def Request.fileNames : Request → List String
  | .render path _ config _ =>
    path.toList ++ config.toList ++ (config.bind Settings.withEnding?).toList
  | .tokens path => path.toList
  | .compare path other => path.toList ++ other.toList
  | _ => []

end GrammarTree.Command
