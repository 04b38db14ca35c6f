import PropertyIndex.Text.Line
import PropertyIndex.Text.Lowercase

/-!
# The arguments of the command line

The command line is a command with its options and operands.  An option of several letters follows
two dashes, and its value is the next argument or stands behind an equality sign.  Options of one
letter follow a single dash and may be written together.  Behind two dashes alone, every argument
is an operand.

* `Command`, `Request`: what is asked for.
* `OptionKind`, `Grammar`: the options of a command.
* `collect`: the options and operands that arguments spell.
* `Request.ofArguments?`: the request that arguments spell, if they are in order.
-/

namespace PropertyIndex

open Text

/-- How a report is shown. -/
inductive ReportFormat where
  | human
  | json
  | markdown
  deriving DecidableEq, Repr

/-- What is asked for. -/
inductive Command where
  /-- Index one pair. -/
  | index (contract spec : String) (outputDirectory settings : Option String) (print : Bool)
  /-- Index the pairs of a directory. -/
  | batch (inputDirectory outputDirectory : Option String) (jobs : Option Nat)
      (settings name : Option String) (format : ReportFormat)
  /-- Show the normal form of a file. -/
  | normalize (file : String)
  deriving DecidableEq, Repr

/-- A command, and whether all notes are shown. -/
structure Request where
  command : Command
  verbose : Bool
  deriving DecidableEq, Repr

/-! ## Options and operands -/

/-- Whether an option has a value. -/
inductive OptionKind where
  | flag
  | value
  deriving DecidableEq, Repr

/-- An option that a command knows. -/
structure OptionSpec where
  name : String
  letter : Option Char
  kind : OptionKind

/-- The options that a command knows. -/
abbrev Grammar := List OptionSpec

/-- The option that every command knows. -/
def verboseOption : OptionSpec :=
  ⟨"verbose", some 'v', .flag⟩

/-- What a list of arguments spells so far, the latest first. -/
structure Collected where
  options : List (String × String)
  operands : List String

namespace Collected

/-- With one more operand. -/
def addOperand (collected : Collected) (operand : String) : Collected :=
  { collected with operands := operand :: collected.operands }

/-- With one more option, which may not have come up before. -/
def addOption? (collected : Collected) (name value : String) : Option Collected :=
  if (collected.options.lookup name).isSome then none
  else some { collected with options := (name, value) :: collected.options }

end Collected

/-- An argument read by itself. -/
inductive Argument where
  /-- It is complete. -/
  | done (collected : Collected)
  /-- An option that needs the next argument for its value. -/
  | needsValue (name : String) (collected : Collected)
  /-- From here on, every argument is an operand. -/
  | operandsOnly

/-- Reads an option of several letters, without its two dashes. -/
def readLong? (grammar : Grammar) (collected : Collected) (body : List Char) : Option Argument := do
  let name := body.takeWhile fun c => c != '='
  let value := body.dropWhile fun c => c != '='
  let option ← grammar.find? fun option => option.name.toList == name
  match option.kind, value with
  | .flag, [] => (collected.addOption? option.name "").map .done
  | .flag, _ => none
  | .value, [] => some (.needsValue option.name collected)
  | .value, _ :: value => (collected.addOption? option.name (String.ofList value)).map .done

/-- Reads options of one letter that are written together, without their dash. -/
def readLetters? (grammar : Grammar) (collected : Collected) : List Char → Option Argument
  | [] => some (.done collected)
  | letter :: letters => do
    let option ← grammar.find? fun option => option.letter == some letter
    match option.kind, letters with
    | .flag, _ => readLetters? grammar (← collected.addOption? option.name "") letters
    | .value, [] => some (.needsValue option.name collected)
    | .value, '=' :: value => (collected.addOption? option.name (String.ofList value)).map .done
    | .value, value => (collected.addOption? option.name (String.ofList value)).map .done

/-- Reads an argument. -/
def readArgument? (grammar : Grammar) (collected : Collected) (argument : String) :
    Option Argument :=
  match argument.toList with
  | ['-', '-'] => some .operandsOnly
  | '-' :: '-' :: body => readLong? grammar collected body
  | '-' :: letter :: letters => readLetters? grammar collected (letter :: letters)
  | _ => some (.done (collected.addOperand argument))

/-- Whether an argument may be the value of the option in front of it: it does not look like an
option itself. -/
def isValueArgument (argument : String) : Bool :=
  argument == "-" || argument.toList.head? != some '-'

/-- The options and operands that arguments spell. -/
def collect (grammar : Grammar) (collected : Collected) : List String → Option Collected
  | [] => some collected
  | argument :: arguments =>
    match readArgument? grammar collected argument with
    | none => none
    | some (.done collected) => collect grammar collected arguments
    | some .operandsOnly => some (arguments.foldl Collected.addOperand collected)
    | some (.needsValue name collected) =>
      match arguments with
      | [] => none
      | value :: arguments =>
        if isValueArgument value then
          match collected.addOption? name value with
          | some collected => collect grammar collected arguments
          | none => none
        else none

/-! ## Typed values -/

/-- A path, which may not be empty. -/
def pathValue? (value : String) : Option String :=
  if value.isEmpty then none else some value

/-- A number below `2 ^ 64`, in front of which a plus sign may stand. -/
def countValue? (value : String) : Option Nat :=
  let digits := if value.toList.head? == some '+' then value.toList.tail else value.toList
  if !digits.isEmpty && digits.all Char.isDigit then
    let n := Nat.ofDigitChars 10 digits 0
    if n < UInt64.size then some n else none
  else none

/-- A format of reports, in any letter case. -/
def formatValue? (value : String) : Option ReportFormat :=
  let lowered := lowercase value.toList
  if lowered == "human".toList then some .human
  else if lowered == "json".toList then some .json
  else if lowered == "markdown".toList then some .markdown
  else none

/-- The value of an option that may be missing. -/
def Collected.option? (collected : Collected) (name : String) (read : String → Option α) :
    Option (Option α) :=
  match collected.options.lookup name with
  | none => some none
  | some value => (read value).map some

/-- Whether a flag is set. -/
def Collected.isSet (collected : Collected) (name : String) : Bool :=
  (collected.options.lookup name).isSome

/-! ## Commands -/

/-- The options of the command that indexes one pair. -/
def indexGrammar : Grammar :=
  [verboseOption, ⟨"output-dir", none, .value⟩, ⟨"config", none, .value⟩,
   ⟨"stdout", none, .flag⟩]

/-- The options of the command that indexes a directory. -/
def batchGrammar : Grammar :=
  [verboseOption, ⟨"input-dir", none, .value⟩, ⟨"output-dir", none, .value⟩,
   ⟨"jobs", some 'j', .value⟩, ⟨"config", none, .value⟩, ⟨"name", none, .value⟩,
   ⟨"format", none, .value⟩]

/-- The options of the command that shows a normal form. -/
def normalizeGrammar : Grammar :=
  [verboseOption]

/-- The command that indexes one pair. -/
def indexCommand? (collected : Collected) : Option Command := do
  let outputDirectory ← collected.option? "output-dir" pathValue?
  let settings ← collected.option? "config" pathValue?
  match collected.operands.reverse with
  | [contract, spec] =>
    return .index (← pathValue? contract) (← pathValue? spec) outputDirectory settings
      (collected.isSet "stdout")
  | _ => none

/-- The command that indexes a directory. -/
def batchCommand? (collected : Collected) : Option Command := do
  let inputDirectory ← collected.option? "input-dir" pathValue?
  let outputDirectory ← collected.option? "output-dir" pathValue?
  let jobs ← collected.option? "jobs" countValue?
  let settings ← collected.option? "config" pathValue?
  let name ← collected.option? "name" some
  let format ← collected.option? "format" formatValue?
  match collected.operands with
  | [] => return .batch inputDirectory outputDirectory jobs settings name (format.getD .human)
  | _ => none

/-- The command that shows a normal form. -/
def normalizeCommand? (collected : Collected) : Option Command :=
  match collected.operands with
  | [file] => (pathValue? file).map .normalize
  | _ => none

/-- The request of a command with its arguments. -/
def Request.ofCommand? (command : String) (verbose : Bool) (arguments : List String) :
    Option Request := do
  let read (grammar : Grammar) (command? : Collected → Option Command) : Option Request := do
    let collected ← collect grammar ⟨[], []⟩ arguments
    return ⟨← command? collected, verbose || collected.isSet "verbose"⟩
  match command with
  | "index" => read indexGrammar indexCommand?
  | "batch" => read batchGrammar batchCommand?
  | "normalize" => read normalizeGrammar normalizeCommand?
  | _ => none

/-- The request that arguments spell, after `verbose` has been asked for or not. -/
def Request.ofArgumentsWith? (verbose : Bool) : List String → Option Request
  | [] => none
  | argument :: arguments =>
    if argument == "-v" || argument == "--verbose" then
      if verbose then none else ofArgumentsWith? true arguments
    else ofCommand? argument verbose arguments

/-- The request that arguments spell, if they are in order. -/
def Request.ofArguments? (arguments : List String) : Option Request :=
  ofArgumentsWith? false arguments

end PropertyIndex
