/-
Module: Metrology.CommandLine.Arguments
Layer: Command line
Purpose: What the arguments of the command line ask for. Arguments are taken from left to right,
  first by the program and then, from a subcommand's name on, by the subcommand. An option that
  awaits a value takes the next argument, whatever names it matches, unless it looks like an option;
  the value of an option is looked at when the argument after it is.
Imports: Metrology.Config, Metrology.Decimal.Reader
Main exports: Subcommand, Command, Invocation, Topic, Interruption, readArguments
-/
import Metrology.Config
import Metrology.Decimal.Reader

namespace Metrology.CommandLine

/-- The program's subcommands. -/
inductive Subcommand where
  | eval
  | convert
  | compatible
  | units
deriving DecidableEq, Repr, Inhabited

namespace Subcommand

def all : List Subcommand := [eval, convert, compatible, units]

def name : Subcommand → String
  | eval => "eval"
  | convert => "convert"
  | compatible => "compatible"
  | units => "units"

def ofName? (name : String) : Option Subcommand := all.find? fun s => s.name == name

/-- The names of the operands. -/
def operands : Subcommand → List String
  | eval => ["FORMULA"]
  | convert => ["VALUE", "FROM", "TO"]
  | compatible => ["A", "B"]
  | units => []

end Subcommand

/-- A subcommand with everything it needs. -/
inductive Command where
  | eval (formula : String) (definitions : List (String × String)) (json : Bool)
  | convert (value : Double) (source target : String) (json : Bool)
  | compatible (a b : String)
  | units (json : Bool)
deriving DecidableEq

/-- A command with the options that every subcommand takes. -/
structure Invocation where
  command : Command
  config? : Option String
  verbose : Bool
deriving DecidableEq

/-- What a help text can be about. -/
inductive Topic where
  | overview
  | subcommand (s : Subcommand)
  | help
deriving DecidableEq, Repr, Inhabited

/-- Why the arguments make no command. -/
inductive UsageError where
  | unknownArgument (text : String)
  | unknownSubcommand (text : String)
  | missingSubcommand
  | missingOperand (name : String)
  | missingValue (option : String)
  | unwantedValue (option : String)
  | invalidValue (name text : String)
  | repeatedOption (option : String)
deriving DecidableEq, Repr, Inhabited

/-- Why reading the arguments stops before a command is made. -/
inductive Interruption where
  | usage (e : UsageError)
  | help (topic : Topic)
  | version
deriving DecidableEq, Repr, Inhabited

/-! ### Options -/

/-- Options without a value. -/
inductive Switch where
  | verbose
  | json
  | help
  | version
deriving DecidableEq, Repr, Inhabited

/-- Options with a value. -/
inductive ValueOption where
  | config
  | define
deriving DecidableEq, Repr, Inhabited

inductive Opt where
  | switch (s : Switch)
  | value (o : ValueOption)
deriving DecidableEq, Repr, Inhabited

def Switch.name : Switch → String
  | verbose => "verbose"
  | json => "json"
  | help => "help"
  | version => "version"

def ValueOption.name : ValueOption → String
  | config => "config"
  | define => "define"

/-- The option of a letter, in the program itself or in a subcommand. -/
def shortOption? (level : Option Subcommand) (letter : Char) : Option Opt :=
  if letter = 'c' then some (.value .config)
  else if letter = 'v' then some (.switch .verbose)
  else if letter = 'h' then some (.switch .help)
  else if letter = 'V' ∧ level = none then some (.switch .version)
  else if letter = 'D' ∧ level = some .eval then some (.value .define)
  else none

/-- The option of a word, in the program itself or in a subcommand. -/
def longOption? (level : Option Subcommand) (word : String) : Option Opt :=
  if word = "config" then some (.value .config)
  else if word = "verbose" then some (.switch .verbose)
  else if word = "help" then some (.switch .help)
  else if word = "version" ∧ level = none then some (.switch .version)
  else if word = "define" ∧ level = some .eval then some (.value .define)
  else if word = "json" ∧ (level = some .eval ∨ level = some .convert ∨ level = some .units) then
    some (.switch .json)
  else none

/-! ### Values -/

/-- The characters that text is trimmed of. -/
def isSpace (c : Char) : Bool :=
  (9 ≤ c.toNat && c.toNat ≤ 13) || c.toNat == 0x20 || c.toNat == 0x85 || c.toNat == 0xa0 ||
    c.toNat == 0x1680 || (0x2000 ≤ c.toNat && c.toNat ≤ 0x200a) || c.toNat == 0x2028 ||
    c.toNat == 0x2029 || c.toNat == 0x202f || c.toNat == 0x205f || c.toNat == 0x3000

def trim (cs : List Char) : List Char :=
  ((cs.dropWhile isSpace).reverse.dropWhile isSpace).reverse

/-- A name and a formula around the first equals sign. -/
def readDefinition? (text : String) : Option (String × String) :=
  let cs := text.toList
  let name := String.ofList (trim (cs.takeWhile (· != '=')))
  match cs.dropWhile (· != '=') with
  | _ :: formula =>
    if isValidUnitName name then some (name, String.ofList (trim formula)) else none
  | [] => none

/-- Digits with at most one point, which is not first, and after it at most one `e`, neither first
    nor last: what may follow a minus sign without being taken for letters of options. -/
def isNegativeNumber (cs : List Char) : Bool :=
  go false false false cs
where
  go (started seenPoint seenMark : Bool) : List Char → Bool
    | [] => true
    | c :: rest =>
      if Formula.Token.isDigit c then go true seenPoint seenMark rest
      else if c = '.' ∧ started ∧ !seenPoint ∧ !seenMark then go true true seenMark rest
      else if c = 'e' ∧ started ∧ !seenMark ∧ !rest.isEmpty then go true seenPoint true rest
      else false

/-! ### One level of arguments -/

/-- An option whose value has not come, or has come and not been looked at. -/
inductive Pending where
  | nothing
  | awaiting (o : ValueOption)
  | given (o : ValueOption) (text : String)
deriving DecidableEq, Repr, Inhabited

/-- What the program, or a subcommand, has taken from the arguments so far. -/
structure Taken where
  config? : Option String
  verbose : Bool
  json : Bool
  definitions : List (String × String)
  operands : List String
  pending : Pending
deriving DecidableEq, Repr, Inhabited

namespace Taken

def initial : Taken := ⟨none, false, false, [], [], .nothing⟩

def usage {α : Type} (e : UsageError) : Except Interruption α := .error (.usage e)

/-- Takes the value of an option. -/
def setValue (t : Taken) (o : ValueOption) (text : String) : Except Interruption Taken :=
  match o with
  | .config =>
    if text.isEmpty then usage (.invalidValue o.name text)
    else if t.config?.isSome then usage (.repeatedOption o.name)
    else .ok { t with config? := some text }
  | .define =>
    match readDefinition? text with
    | some definition => .ok { t with definitions := t.definitions ++ [definition] }
    | none => usage (.invalidValue o.name text)

/-- Looks at what is pending. -/
def settle (t : Taken) : Except Interruption Taken :=
  match t.pending with
  | .nothing => .ok t
  | .awaiting o => usage (.missingValue o.name)
  | .given o text => setValue { t with pending := .nothing } o text

/-- Takes an option without a value. -/
def turnOn (topic : Topic) (t : Taken) (s : Switch) : Except Interruption Taken := do
  let t ← t.settle
  match s with
  | .help => .error (.help topic)
  | .version => .error .version
  | .verbose =>
    if t.verbose then usage (.repeatedOption s.name) else return { t with verbose := true }
  | .json => if t.json then usage (.repeatedOption s.name) else return { t with json := true }

/-- Takes an option with a value that is written in the same argument, if it is. -/
def takeOption (t : Taken) (o : ValueOption) (attached : Option String) :
    Except Interruption Taken := do
  let t ← t.settle
  match attached with
  | some text => t.setValue o text
  | none => return { t with pending := .awaiting o }

/-- Takes an operand; the value to convert has to be a number. -/
def takeOperand (s : Subcommand) (t : Taken) (text : String) : Except Interruption Taken := do
  let t ← t.settle
  match s.operands[t.operands.length]? with
  | none => usage (.unknownArgument text)
  | some name =>
    if s = .convert ∧ t.operands.isEmpty ∧ (Binary.read? .double text).isNone then
      usage (.invalidValue name text)
    else return { t with operands := t.operands ++ [text] }

/-- Takes an argument that is no option: the value awaited, or an operand. -/
def takePlain (level : Option Subcommand) (t : Taken) (text : String) : Except Interruption Taken :=
  match t.pending with
  | .awaiting o => .ok { t with pending := .given o text }
  | _ => match level with
    | some s => t.takeOperand s text
    | none => usage (.unknownSubcommand text)

/-- What help is about at a level. -/
def topicOf : Option Subcommand → Topic
  | none => .overview
  | some s => .subcommand s

/-- Takes an argument that begins with two hyphens. -/
def takeLong (level : Option Subcommand) (t : Taken) (cs : List Char) : Except Interruption Taken :=
  let word := String.ofList (cs.takeWhile (· != '='))
  let attached := match cs.dropWhile (· != '=') with
    | _ :: value => some (String.ofList value)
    | [] => none
  match longOption? level word with
  | none => usage (.unknownArgument word)
  | some (.switch s) =>
    if attached.isSome then usage (.unwantedValue word) else t.turnOn (topicOf level) s
  | some (.value o) => t.takeOption o attached

/-- Takes letters of options after one hyphen; an option with a value takes the letters after it. -/
def takeShort (level : Option Subcommand) (t : Taken) : List Char → Except Interruption Taken
  | [] => .ok t
  | letter :: rest =>
    match shortOption? level letter with
    | none => usage (.unknownArgument (String.ofList ['-', letter]))
    | some (.switch s) => do takeShort level (← t.turnOn (topicOf level) s) rest
    | some (.value o) =>
      let attached := match rest with
        | [] => none
        | '=' :: value => some (String.ofList value)
        | value => some (String.ofList value)
      t.takeOption o attached

/-- Whether the next operand may be a negative number. -/
def takesNegative (level : Option Subcommand) (t : Taken) : Bool :=
  level == some .convert && t.operands.isEmpty

/-- Takes one argument. -/
def take (level : Option Subcommand) (t : Taken) (text : String) : Except Interruption Taken :=
  match text.toList with
  | '-' :: '-' :: word => t.takeLong level word
  | '-' :: letter :: rest =>
    if t.takesNegative level && isNegativeNumber (letter :: rest) then t.takePlain level text
    else t.takeShort level (letter :: rest)
  | _ => t.takePlain level text

/-- Takes an argument after `--`, which is never an option. -/
def takeTrailing (level : Option Subcommand) (t : Taken) (text : String) :
    Except Interruption Taken :=
  match level with
  | some s => t.takeOperand s text
  | none => usage (.unknownSubcommand text)

/-- Takes all arguments of a subcommand. -/
def takeAll (s : Subcommand) (t : Taken) : List String → Except Interruption Taken
  | [] => t.settle
  | "--" :: rest => do (← rest.foldlM (takeTrailing (some s)) t).settle
  | text :: rest => do takeAll s (← t.take (some s) text) rest

end Taken

/-- The command of a subcommand's arguments, if no operand is missing. -/
def makeCommand (s : Subcommand) (t : Taken) : Except Interruption Command :=
  let missing : Except Interruption Command :=
    .error (.usage (.missingOperand ((s.operands[t.operands.length]?).getD "")))
  match s, t.operands with
  | .eval, [formula] => .ok (.eval formula t.definitions t.json)
  | .convert, [text, source, target] =>
    match Binary.read? .double text with
    | some value => .ok (.convert value source target t.json)
    | none => .error (.usage (.invalidValue "VALUE" text))
  | .compatible, [a, b] => .ok (.compatible a b)
  | .units, [] => .ok (.units t.json)
  | _, _ => missing

/-- The topic that names after `help` lead to. -/
def helpTopic : List String → Except Interruption Topic
  | [] => .ok .overview
  | [name] =>
    match Subcommand.ofName? name with
    | some s => .ok (.subcommand s)
    | none => if name = "help" then .ok .help else .error (.usage (.unknownSubcommand name))
  | name :: next :: _ =>
    if (Subcommand.ofName? name).isSome ∨ name = "help" then
      .error (.usage (.unknownSubcommand next))
    else .error (.usage (.unknownSubcommand name))

/-- Reads the arguments from a subcommand's name on; what the program took before it is looked at
    last. -/
def readSubcommand (before : Taken) (s : Subcommand) (rest : List String) :
    Except Interruption Invocation := do
  let t ← Taken.initial.takeAll s rest
  let command ← makeCommand s t
  let before ← before.settle
  return ⟨command, t.config? <|> before.config?, t.verbose || before.verbose⟩

/-- Reads arguments after what the program itself has taken. -/
def readFrom (t : Taken) : List String → Except Interruption Invocation
  | [] => do
    let _ ← t.settle
    Taken.usage .missingSubcommand
  | text :: rest =>
    let awaiting := match t.pending with
      | .awaiting _ => true
      | _ => false
    if !awaiting && text == "help" then do .error (.help (← helpTopic rest))
    else match if awaiting then none else Subcommand.ofName? text with
      | some s => readSubcommand t s rest
      | none =>
        if text = "--" then do
          let t ← rest.foldlM (Taken.takeTrailing none) t
          let _ ← t.settle
          Taken.usage .missingSubcommand
        else do readFrom (← t.take none text) rest

/-- What the arguments ask for. -/
def readArguments (arguments : List String) : Except Interruption Invocation :=
  readFrom .initial arguments

example : readArguments ["-v", "compatible", "m", "--", "-s"] =
    .ok ⟨.compatible "m" "-s", none, true⟩ := rfl

end Metrology.CommandLine
