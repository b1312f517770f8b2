import StoreLint.Number.Integer
import StoreLint.Settings.Basic
import StoreLint.Command.Suggestion

/-!
# The arguments of a command

The first word that is not a flag names the command.  Flags may stand anywhere, a long one as
`--name`, `--name value` or `--name=value`; short ones may stand together behind one dash.  A double
dash ends the flags.  What is left are the files.

* `Flags` has the values of all flags, and `Command.flags` lists those that a command takes.
* `Command.choose` finds the command, and `Arguments.read` reads the rest.
* `UsageError` says what can be wrong.
-/

namespace StoreLint

/-- The values of the flags of all commands. -/
structure Flags where
  verbose : Bool := false
  help : Bool := false
  /-- The settings file to use; empty when it is not given. -/
  config : String := ""
  noConfig : Bool := false
  format : String := ""
  noColor : Bool := false
  unsorted : Bool := false
  fail : Bool := false
  minify : Bool := false
  indent : Int := 0
  deriving DecidableEq, Repr

/-- The part of the flags that overrides settings. -/
def Flags.overrides (f : Flags) : Overrides :=
  ⟨f.format, f.noColor, f.unsorted, f.fail, f.indent⟩

/-! ## Errors -/

/-- Why a text is no value for a flag. -/
inductive ValueError where
  | notBoolean
  | notInteger (e : Number.IntegerError)
  deriving DecidableEq, Repr

/-- The message about a text that is no value. -/
def ValueError.message (value : String) : ValueError → Bytes
  | .notBoolean =>
    utf8 "strconv.ParseBool: parsing " ++ quoted (utf8 value) ++ utf8 ": invalid syntax"
  | .notInteger .malformed =>
    utf8 "strconv.ParseInt: parsing " ++ quoted (utf8 value) ++ utf8 ": invalid syntax"
  | .notInteger .outOfRange =>
    utf8 "strconv.ParseInt: parsing " ++ quoted (utf8 value) ++ utf8 ": value out of range"

/-- What is wrong with arguments. -/
inductive UsageError where
  | unknownCommand (name : String)
  /-- Two dashes with something behind them that cannot start a name. -/
  | malformedFlag (argument : String)
  | unknownFlag (name : String)
  /-- A letter that is no flag, with the rest of the letters behind the dash. -/
  | unknownLetter (letter : Char) (others : List Char)
  | missingValue (argument : String)
  /-- A text that is no value for the flag with a label. -/
  | invalidValue (value label : String) (cause : ValueError)
  | tooManyFiles (limit count : Nat)
  deriving DecidableEq, Repr

/-- The commands that are suggested for a mistyped one. -/
def commandNames : List String :=
  ["check", "fmt", "tokens", "version", "completion"]

/-- The hint at commands like the one that was typed. -/
def commandHint (typed : String) : Bytes :=
  match suggestions typed commandNames with
  | [] => []
  | names =>
    utf8 "\n\nDid you mean this?\n"
      ++ names.flatMap fun name => utf8 "\t" ++ utf8 name ++ utf8 "\n"

/-- The message about wrong arguments.  A letter is shown by its first byte. -/
def UsageError.message : UsageError → Bytes
  | .unknownCommand name =>
    utf8 "unknown command " ++ quoted (utf8 name) ++ utf8 " for \"deadstore\"" ++ commandHint name
  | .malformedFlag argument => utf8 "bad flag syntax: " ++ utf8 argument
  | .unknownFlag name => utf8 "unknown flag: --" ++ utf8 name
  | .unknownLetter letter others =>
    utf8 "unknown shorthand flag: "
      ++ quotedChar (Char.ofNat ((utf8Char letter).headD 0).toNat)
      ++ utf8 " in -" ++ (letter :: others).flatMap utf8Char
  | .missingValue argument => utf8 "flag needs an argument: " ++ utf8 argument
  | .invalidValue value label cause =>
    utf8 "invalid argument " ++ quoted (utf8 value) ++ utf8 " for " ++ quoted (utf8 label)
      ++ utf8 " flag: " ++ cause.message value
  | .tooManyFiles limit count =>
    utf8 "accepts at most " ++ digits limit ++ utf8 " arg(s), received " ++ digits count

/-! ## Flags -/

/-- What a flag does with its value. -/
inductive Flag.Effect where
  /-- A flag that is on when it has no value. -/
  | switch (set : Bool → Flags → Flags)
  | text (set : String → Flags → Flags)
  | integer (set : Int → Flags → Flags)

/-- A flag.  Only switches have a letter. -/
structure Flag where
  name : String
  letter : Option Char
  effect : Flag.Effect

namespace Flag

/-- Is the flag on when it has no value? -/
def isSwitch (f : Flag) : Bool :=
  match f.effect with
  | .switch _ => true
  | _ => false

/-- The flag as errors show it. -/
def label (f : Flag) : String :=
  match f.letter with
  | some c => "-" ++ String.ofList [c] ++ ", --" ++ f.name
  | none => "--" ++ f.name

/-- The truth value that a text stands for. -/
def boolean? (value : String) : Option Bool :=
  if ["1", "t", "T", "TRUE", "true", "True"].contains value then some true
  else if ["0", "f", "F", "FALSE", "false", "False"].contains value then some false
  else none

/-- Gives a flag a value. -/
def assign (f : Flag) (value : String) (flags : Flags) : Except UsageError Flags :=
  match f.effect with
  | .switch set =>
    match boolean? value with
    | some b => .ok (set b flags)
    | none => .error (.invalidValue value f.label .notBoolean)
  | .text set => .ok (set value flags)
  | .integer set =>
    match Number.integer none (utf8 value) with
    | .ok n => .ok (set n flags)
    | .error e => .error (.invalidValue value f.label (.notInteger e))

/-- The flags that every command takes, apart from the request for help. -/
def shared : List Flag :=
  [⟨"verbose", some 'v', .switch fun b f => { f with verbose := b }⟩,
    ⟨"config", none, .text fun s f => { f with config := s }⟩,
    ⟨"no-config", none, .switch fun b f => { f with noConfig := b }⟩]

/-- The request for help. -/
def help : Flag :=
  ⟨"help", some 'h', .switch fun b f => { f with help := b }⟩

end Flag

/-! ## Commands -/

/-- A command. -/
inductive Command where
  | check
  | format
  | tokens
  | version
  | help
  deriving DecidableEq, Repr

namespace Command

/-- The command with a name. -/
def ofName? : String → Option Command
  | "check" => some .check
  | "fmt" => some .format
  | "tokens" => some .tokens
  | "version" => some .version
  | "help" => some .help
  | "completion" => some .help
  | _ => none

/-- The flags of a command alone. -/
def ownFlags : Command → List Flag
  | .check =>
    [⟨"format", none, .text fun s f => { f with format := s }⟩,
      ⟨"no-color", none, .switch fun b f => { f with noColor := b }⟩,
      ⟨"unsorted", none, .switch fun b f => { f with unsorted := b }⟩,
      ⟨"fail", none, .switch fun b f => { f with fail := b }⟩]
  | .format =>
    [⟨"minify", none, .switch fun b f => { f with minify := b }⟩,
      ⟨"indent", none, .integer fun n f => { f with indent := n }⟩]
  | _ => []

/-- The flags that a command takes. -/
def flags (c : Command) : List Flag :=
  c.ownFlags ++ Flag.help :: Flag.shared

/-- The greatest number of files that a command takes, if there is one. -/
def fileLimit : Command → Option Nat
  | .format => some 1
  | .tokens => some 1
  | _ => none

/-- Does the argument start with a dash? -/
def isDashed (argument : String) : Bool :=
  argument.toList.head? = some '-'

/-- Before the command is known: does the argument look like a flag with its value in the next
argument?  A shared switch does not. -/
def expectsValue (argument : String) : Bool :=
  match argument.toList with
  | '-' :: '-' :: name =>
    !name.contains '=' && !Flag.shared.any fun f => f.isSwitch && f.name.toList = name
  | ['-', c] =>
    c != '=' && c.toNat < 0x80 && !Flag.shared.any fun f => f.isSwitch && f.letter = some c
  | _ => false

/-- The first argument that is neither a flag nor the value of one. -/
def firstWord? : List String → Option String
  | [] => none
  | argument :: rest =>
    if argument = "--" then none
    else if expectsValue argument then
      match rest with
      | _ :: next :: rest => firstWord? (next :: rest)
      | _ => none
    else if argument ≠ "" ∧ ¬isDashed argument then some argument
    else firstWord? rest

/-- The arguments without the first occurrence of a word that is neither a flag nor the value of
one. -/
def withoutWord (word : String) : List String → List String
  | [] => []
  | argument :: rest =>
    if argument = "--" then argument :: rest
    else if expectsValue argument then
      match rest with
      | value :: rest => argument :: value :: withoutWord word rest
      | [] => [argument]
    else if ¬isDashed argument ∧ argument = word then rest
    else argument :: withoutWord word rest

/-- The command that arguments name, and the other arguments.  Without a name they ask for help. -/
def choose (arguments : List String) : Except UsageError (Command × List String) :=
  match firstWord? arguments with
  | none => .ok (.help, arguments)
  | some word =>
    match ofName? word with
    | some c => .ok (c, withoutWord word arguments)
    | none => .error (.unknownCommand word)

end Command

/-! ## Reading flags and files -/

/-- The arguments of a command as far as they have been read. -/
structure Arguments where
  flags : Flags := {}
  files : List String := []
  deriving DecidableEq, Repr

namespace Arguments

/-- What an argument looks like. -/
inductive Form where
  | file
  /-- A double dash. -/
  | stop
  | malformed
  /-- The letters behind a dash. -/
  | letters (first : Char) (others : List Char)
  /-- A long flag, perhaps with a value. -/
  | long (name : String) (value : Option String)

/-- What an argument looks like. -/
def form (argument : String) : Form :=
  match argument.toList with
  | ['-', '-'] => .stop
  | '-' :: '-' :: c :: cs =>
    if c = '-' ∨ c = '=' then .malformed
    else
      .long (String.ofList ((c :: cs).takeWhile (· ≠ '=')))
        (match (c :: cs).dropWhile (· ≠ '=') with
          | [] => none
          | _ :: value => some (String.ofList value))
  | '-' :: c :: cs => .letters c cs
  | _ => .file

/-- Reads the letters behind a dash.  A value behind an equals sign belongs to the last letter, and
letters that start with `test.` are passed over. -/
def readLetters (known : List Flag) : List Char → Flags → Except UsageError Flags
  | [], flags => .ok flags
  | c :: cs, flags =>
    if "test.".toList.isPrefixOf (c :: cs) then .ok flags
    else
      match known.find? fun f => f.letter = some c with
      | none => .error (.unknownLetter c cs)
      | some f =>
        match cs with
        | '=' :: v :: vs => f.assign (String.ofList (v :: vs)) flags
        | _ => do readLetters known cs (← f.assign "true" flags)

/-- Reads arguments. -/
def read (known : List Flag) : List String → Arguments → Except UsageError Arguments
  | [], a => .ok a
  | argument :: rest, a =>
    match form argument with
    | .file => read known rest { a with files := a.files ++ [argument] }
    | .stop => .ok { a with files := a.files ++ rest }
    | .malformed => .error (.malformedFlag argument)
    | .letters c cs => do
      read known rest { a with flags := ← readLetters known (c :: cs) a.flags }
    | .long name value =>
      match known.find? fun f => f.name = name with
      | none => .error (.unknownFlag name)
      | some f =>
        match value with
        | some value => do read known rest { a with flags := ← f.assign value a.flags }
        | none =>
          if f.isSwitch then do read known rest { a with flags := ← f.assign "true" a.flags }
          else
            match rest with
            | [] => .error (.missingValue argument)
            | value :: others => do read known others { a with flags := ← f.assign value a.flags }

end Arguments

end StoreLint
