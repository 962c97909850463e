/-! # Command-line arguments

    Arguments are options, values of options, the name of a subcommand, and
    operands.  There are two levels, before and after the subcommand; the options
    for verbosity and configuration may stand at both, and what stands at the
    inner one counts.

    An option has a long form, `--name` or `--name=value`, or is a letter after a
    single dash, where letters may be joined.  A value may also be the argument
    after its option, unless that looks like an option itself.  After `--` there
    are operands only. -/

namespace Stencil.Command

/-! ## What arguments ask for -/

/-- The subcommands, by name. -/
inductive Subcommand where
  | init
  | add
  | schema
deriving DecidableEq, Repr

namespace Subcommand

/-- Every subcommand. -/
def all : List Subcommand := [.init, .add, .schema]

/-- The word that calls a subcommand. -/
def word : Subcommand → String
  | .init => "init"
  | .add => "add"
  | .schema => "schema"

/-- The subcommand that a word calls. -/
def ofWord? (word : String) : Option Subcommand :=
  all.find? fun subcommand => subcommand.word = word

end Subcommand

/-- What is to be done. -/
inductive Action where
  /-- Ask the user. -/
  | ask
  /-- Set up a server. -/
  | init
  /-- Generate a module, with the schema at a path if one is given. -/
  | add (name : String) (schema : Option String)
  /-- Show a schema, as a table or as JSON. -/
  | schema (path : Option String) (json : Bool)
deriving DecidableEq, Repr

/-- A complete call. -/
structure Call where
  verbosity : Nat
  config : Option String
  action : Action
deriving DecidableEq, Repr

/-- Why arguments are no call. -/
inductive Stop where
  /-- Help is asked for, on a subcommand or on everything. -/
  | help (topic : Option Subcommand)
  /-- The version is asked for. -/
  | version
  /-- The arguments are wrong. -/
  | misuse
deriving DecidableEq, Repr

/-! ## One level -/

/-- The options that take a value. -/
inductive ValueOption where
  | config
  | schema
deriving DecidableEq, Repr

/-- What has been read on one level: before any subcommand, or after one. -/
structure Level where
  subcommand : Option Subcommand
  verbosity : Nat
  config : Option String
  schema : Option String
  json : Bool
  operand : Option String
  /-- The option whose value comes next. -/
  awaiting : Option ValueOption
  /-- Whether only operands may come. -/
  operandsOnly : Bool
deriving DecidableEq, Repr

namespace Level

/-- A level on which nothing has been read. -/
def start (subcommand : Option Subcommand) : Level :=
  ⟨subcommand, 0, none, none, false, none, none, false⟩

/-- Gives an option its value, which is not empty and is given once. -/
def setValue (level : Level) (option : ValueOption) (value : String) : Except Stop Level :=
  if value.isEmpty then .error .misuse
  else
    match option with
    | .config =>
        if level.config.isSome then .error .misuse
        else .ok { level with config := some value, awaiting := none }
    | .schema =>
        if level.schema.isSome then .error .misuse
        else .ok { level with schema := some value, awaiting := none }

/-- Reads an option that takes a value, which is attached to it or comes next. -/
def valueOption (level : Level) (option : ValueOption) (attached : Option String) :
    Except Stop Level :=
  match attached with
  | some value => level.setValue option value
  | none => .ok { level with awaiting := some option }

/-- Reads a long option. -/
def long (level : Level) (name : String) (attached : Option String) : Except Stop Level :=
  if name = "config" then level.valueOption .config attached
  else if name = "schema" && (level.subcommand = some .add || level.subcommand = some .schema) then
    level.valueOption .schema attached
  else if attached.isSome then .error .misuse
  else if name = "verbose" then .ok { level with verbosity := level.verbosity + 1 }
  else if name = "json" && level.subcommand = some .schema && !level.json then
    .ok { level with json := true }
  else if name = "help" then .error (.help level.subcommand)
  else if name = "version" && level.subcommand.isNone then .error .version
  else .error .misuse

/-- Reads the letters after a single dash. -/
def short (level : Level) : List Char → Except Stop Level
  | [] => .ok level
  | c :: rest =>
      if c = 'v' then short { level with verbosity := level.verbosity + 1 } rest
      else if c = 'h' then .error (.help level.subcommand)
      else if c = 'V' && level.subcommand.isNone then .error .version
      else .error .misuse

/-- Reads an operand; only one subcommand takes one. -/
def takeOperand (level : Level) (argument : String) : Except Stop Level :=
  if level.subcommand = some .add && level.operand.isNone then
    .ok { level with operand := some argument }
  else .error .misuse

/-- The name of a long option, and the value attached to it. -/
def splitLong (cs : List Char) : String × Option String :=
  let name := String.ofList (cs.takeWhile (· ≠ '='))
  match cs.dropWhile (· ≠ '=') with
  | [] => (name, none)
  | _ :: value => (name, some (String.ofList value))

/-- Whether an argument cannot be a value because it looks like an option. -/
def looksLikeOption (argument : String) : Bool :=
  argument.toList.head? = some '-' && argument != "-"

/-- Reads an argument. -/
def read (level : Level) (argument : String) : Except Stop Level :=
  match level.awaiting with
  | some option =>
      if looksLikeOption argument then .error .misuse else level.setValue option argument
  | none =>
      if level.operandsOnly then level.takeOperand argument
      else if argument = "--" then .ok { level with operandsOnly := true }
      else
        match argument.toList with
        | '-' :: '-' :: cs => level.long (splitLong cs).1 (splitLong cs).2
        | '-' :: c :: cs => level.short (c :: cs)
        | _ => level.takeOperand argument

/-- What a level asks for when nothing more comes. -/
def action (level : Level) : Except Stop Action :=
  if level.awaiting.isSome then .error .misuse
  else
    match level.subcommand, level.operand with
    | none, _ => .ok .ask
    | some .init, _ => .ok .init
    | some .add, some name => .ok (.add name level.schema)
    | some .add, none => .error .misuse
    | some .schema, _ => .ok (.schema level.schema level.json)

end Level

/-! ## Calls -/

/-- The call that the outer and the inner level make together. -/
def callOf (outer inner : Level) : Except Stop Call :=
  inner.action.map fun action =>
    ⟨if inner.verbosity = 0 then outer.verbosity else inner.verbosity,
      inner.config.or outer.config, action⟩

/-- Help on a subcommand, or on everything. -/
def helpOn : List String → Stop
  | [] => .help none
  | [word] =>
      match Subcommand.ofWord? word with
      | some subcommand => .help (some subcommand)
      | none => if word = "help" then .help none else .misuse
  | _ => .misuse

/-- Reads the arguments from the outer level on. -/
def readFrom (outer : Level) : List String → Except Stop Call
  | [] => callOf outer outer
  | argument :: rest =>
      -- a value or an operand is never the name of a subcommand
      if outer.awaiting.isSome || outer.operandsOnly then do
        readFrom (← outer.read argument) rest
      else if argument = "help" then .error (helpOn rest)
      else
        match Subcommand.ofWord? argument with
        | some subcommand => do
            callOf outer (← rest.foldlM Level.read (Level.start (some subcommand)))
        | none => do readFrom (← outer.read argument) rest

/-- The call that arguments make. -/
def Call.read (arguments : List String) : Except Stop Call :=
  readFrom (Level.start none) arguments

end Stencil.Command
