/-
# Arguments of the command line

The program is called with a command and what the command needs: operands, which are told by their
order, and options with a value.  An option has a long name behind two hyphens, and it may have a
letter behind one.  Its value is the next argument, or it follows behind an equals sign, or right
behind the letter.  Letters may be put together behind one hyphen.  Two hyphens alone say that only
operands follow.  A flag that asks for more logging is accepted everywhere; it does not change the
output.
-/
import GrammarTree.Decimal

namespace GrammarTree.Command

/-- What the program is asked to do. -/
inductive Request where
  /-- Tell the version. -/
  | version
  /-- Render the grammar of a file. -/
  | render (path format config : Option String) (indent : Option Nat)
  /-- Write out the tokens of a file. -/
  | tokens (path : Option String)
  /-- Compare the grammars of two files. -/
  | compare (path other : Option String)
  /-- List the formats. -/
  | listFormats
deriving DecidableEq, Repr

/-- An option with a value. -/
inductive OptionName where
  | format
  | config
  | indent
deriving DecidableEq, Repr

namespace OptionName

/-- The long name of an option. -/
def long : OptionName → List Char
  | format => "format".toList
  | config => "config".toList
  | indent => "indent".toList

/-- The letter of an option. -/
def letter? : OptionName → Option Char
  | format => some 'f'
  | config => some 'c'
  | indent => none

end OptionName

/-- What a command accepts. -/
structure Form where
  /-- The options it has. -/
  options : List OptionName
  /-- The number of operands it can have. -/
  operands : Nat

/-- What is read of a command's arguments. -/
structure Reading where
  /-- Whether more logging is asked for. -/
  debug : Bool
  /-- The options with their values. -/
  values : List (OptionName × String)
  /-- The option that waits for its value. -/
  waiting : Option OptionName
  /-- The operands. -/
  operands : List String
  /-- Whether only operands follow. -/
  closed : Bool
deriving Repr

namespace Reading

/-- Nothing is read yet. -/
def start : Reading := ⟨false, [], none, [], false⟩

/-- Takes the flag, which may be given once. -/
def flag? (r : Reading) : Option Reading := if r.debug then none else some { r with debug := true }

/-- Whether an option's value is acceptable: an indentation is a number of 32 bits. -/
def accepts : OptionName → String → Bool
  | .indent, value =>
    match readInteger? value.toList with
    | some n => 0 ≤ n && n < 4294967296
    | none => false
  | _, _ => true

/-- Takes the value of an option, which may be given once. -/
def value? (r : Reading) (o : OptionName) (value : String) : Option Reading :=
  if (r.values.lookup o).isSome || !accepts o value then none
  else some { r with values := (o, value) :: r.values, waiting := none }

/-- Takes an operand. -/
def operand? (r : Reading) (form : Form) (arg : String) : Option Reading :=
  if r.operands.length < form.operands then some { r with operands := r.operands ++ [arg] }
  else none

/-- Takes a long name and the value behind an equals sign, if there is one. -/
def long? (r : Reading) (form : Form) (name : List Char) (value : Option String) : Option Reading :=
  if name = "debug".toList then if value.isSome then none else r.flag?
  else
    match form.options.find? (·.long == name), value with
    | some o, some value => r.value? o value
    | some o, none => some { r with waiting := some o }
    | none, _ => none

/-- Takes letters behind one hyphen. -/
def letters? (form : Form) : Reading → List Char → Option Reading
  | r, [] => some r
  | r, c :: rest =>
    if c = 'd' then
      match r.flag? with
      | some r => letters? form r rest
      | none => none
    else
      match form.options.find? (·.letter? == some c), rest with
      | some o, [] => some { r with waiting := some o }
      | some o, '=' :: value => r.value? o (String.ofList value)
      | some o, value => r.value? o (String.ofList value)
      | none, _ => none

/-- Takes the next argument. -/
def next? (form : Form) (r : Reading) (arg : String) : Option Reading :=
  match r.waiting, r.closed, arg.toList with
  | some _, _, '-' :: _ :: _ => none
  | some o, _, _ => r.value? o arg
  | none, true, _ => r.operand? form arg
  | none, false, ['-', '-'] => some { r with closed := true }
  | none, false, '-' :: '-' :: rest =>
    match rest.dropWhile (· != '=') with
    | _ :: value => r.long? form (rest.takeWhile (· != '=')) (some (String.ofList value))
    | [] => r.long? form rest none
  | none, false, '-' :: c :: rest => r.letters? form (c :: rest)
  | none, false, _ => r.operand? form arg

/-- Reads all arguments of a command. -/
def readAll? (form : Form) (args : List String) : Option Reading :=
  (args.foldlM (next? form) start).filter (·.waiting.isNone)

/-- The number that an option's value is. -/
def number? (r : Reading) (o : OptionName) : Option Nat :=
  ((r.values.lookup o).bind fun value => readInteger? value.toList).map Int.toNat

end Reading

/-- The request that a command with its arguments is. -/
def request? (command : String) (args : List String) : Option (Option Request) :=
  let read (form : Form) (request : Reading → Request) : Option (Option Request) :=
    some ((Reading.readAll? form args).map request)
  match command with
  | "render" =>
    read ⟨[.format, .config, .indent], 1⟩ fun r =>
      .render r.operands[0]? (r.values.lookup .format) (r.values.lookup .config) (r.number? .indent)
  | "tokens" => read ⟨[], 1⟩ fun r => .tokens r.operands[0]?
  | "compare" => read ⟨[], 2⟩ fun r => .compare r.operands[0]? r.operands[1]?
  | "list-formats" => read ⟨[], 0⟩ fun _ => .listFormats
  | _ => none

/-- What comes of an argument before the command. -/
inductive Leading where
  /-- It asks for more logging. -/
  | debug
  /-- It asks for the version. -/
  | version
  /-- It cannot be accepted. -/
  | refused
deriving DecidableEq, Repr

/-- Reads letters behind one hyphen before the command; the first of them is not missing. -/
def leadingLetters (debug : Bool) : List Char → Leading
  | [] => if debug then .debug else .refused
  | 'd' :: rest => if debug then .refused else leadingLetters true rest
  | 'V' :: _ => .version
  | _ :: _ => .refused

/-- Reads an argument before the command. -/
def leading (debug : Bool) (arg : String) : Leading :=
  match arg.toList with
  | '-' :: '-' :: rest =>
    if rest = "debug".toList then if debug then .refused else .debug
    else if rest = "version".toList then .version
    else .refused
  | '-' :: c :: rest => leadingLetters debug (c :: rest)
  | _ => .refused

/-- Reads all arguments from the given state of the flag on. -/
def readFrom? (debug : Bool) : List String → Option Request
  | [] => none
  | arg :: rest =>
    match request? arg rest with
    | some request => request
    | none =>
      match leading debug arg with
      | .debug => readFrom? true rest
      | .version => some .version
      | .refused => none

/-- The request that some arguments are, unless they are wrong. -/
def Request.read? (args : List String) : Option Request := readFrom? false args

end GrammarTree.Command
