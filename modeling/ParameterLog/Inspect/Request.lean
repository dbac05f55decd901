/-
Module: ParameterLog.Inspect.Request
Purpose: what the arguments of the inspection program ask for.
Main exports: Target, Command, Invocation, Request, Request.ofArguments
-/
import ParameterLog.Frame

/-!
The arguments are the path of a log and a command, with `--frame-size` and its value anywhere before
the command. The commands are `stats`, `dump` with perhaps `--raw`, and `get` followed by
`parameters` and an identifier or `set` and a hash. Arguments are read from left to right; the first
one that does not fit is a wrong usage, and a request for help or the version is granted as soon as
it is met. Behind `help` there are only names of commands, each below the one before it. The name of
a command is a command wherever a command may stand. After `--` nothing is an option and, as that
holds for commands too, no command can follow it.
-/

namespace ParameterLog

/-- What a command looks for. -/
inductive Target where
  | parameters (id : String)
  | set (hash : String)
deriving Repr, DecidableEq

/-- What is to be done with a log. -/
inductive Command where
  | stats
  | dump (raw : Bool)
  | get (target : Target)
deriving Repr, DecidableEq

/-- A command with its log. -/
structure Invocation where
  log : String
  frameSize : Nat
  command : Command
deriving Repr, DecidableEq

/-- What the arguments ask for. -/
inductive Request where
  | help
  | version
  | run (invocation : Invocation)
deriving Repr, DecidableEq

namespace Request

/-- What is read off some arguments, or a request for help met among them. -/
inductive Parsed (α : Type) where
  | help
  | value (value : α)
deriving Repr, DecidableEq

/-- The greatest number of 64 bits. -/
def greatestNumber : Nat := 18446744073709551615

/-- A number of at most 64 bits in decimal digits, with perhaps a plus sign before them. -/
def number? (text : String) : Option Nat :=
  let digits := match text.toList with
    | '+' :: rest => rest
    | all => all
  if digits.isEmpty || !digits.all Char.isDigit then none
  else
    let n := digits.foldl (fun n c => 10 * n + (c.toNat - '0'.toNat)) 0
    if n ≤ greatestNumber then some n else none

/-- Whether an argument is an option: a hyphen with something behind it. -/
def isOption (argument : String) : Bool := argument.startsWith "-" && argument != "-"

/-- Whether an argument asks for help. -/
def asksForHelp (argument : String) : Bool := argument == "--help" || argument.startsWith "-h"

/-- The arguments of a command: values and perhaps a flag. -/
structure Operands where
  values : List String
  flag : Bool
deriving Repr, DecidableEq

/-- Reads the arguments of a command that takes a number of values and perhaps a flag. -/
def operands? (flag : Option String) (slots : Nat) :
    List String → Operands → Option (Parsed Operands)
  | [], read => some (.value read)
  | argument :: rest, read =>
    if argument = "--" then
      if read.values.length + rest.length ≤ slots then
        some (.value { read with values := read.values ++ rest })
      else none
    else if asksForHelp argument then some .help
    else if flag = some argument then
      if read.flag then none else operands? flag slots rest { read with flag := true }
    else if isOption argument then none
    else if read.values.length < slots then
      operands? flag slots rest { read with values := read.values ++ [argument] }
    else none

/-- Reads the one value of a target. -/
def target? (target : String → Target) (arguments : List String) : Option (Parsed Command) :=
  match operands? none 1 arguments ⟨[], false⟩ with
  | some .help => some .help
  | some (.value ⟨[value], _⟩) => some (.value (.get (target value)))
  | _ => none

/-- The commands of the program. -/
def topCommands : List String := ["stats", "dump", "get", "help"]

/-- The commands below a command. -/
def commandsBelow (name : String) : List String :=
  if name = "get" then ["parameters", "set", "help"] else []

/-- Whether the arguments of `help` lead down from some commands, each naming one below the one
before it. -/
def helpTopic (commands : List String) : List String → Bool
  | [] => true
  | name :: rest => commands.contains name && helpTopic (commandsBelow name) rest

example : helpTopic topCommands ["get", "set"] = true := by decide
example : helpTopic topCommands ["get", "set", "01"] = false := by decide

/-- Reads the arguments of `get`. -/
def get? : List String → Option (Parsed Command)
  | [] => none
  | argument :: rest =>
    if argument = "parameters" then target? .parameters rest
    else if argument = "set" then target? .set rest
    else if argument = "help" then
      if helpTopic (commandsBelow "get") rest then some .help else none
    else if asksForHelp argument then some .help
    else none

/-- Reads a command and its arguments, if the first one is a command. -/
def command? (name : String) (arguments : List String) : Option (Option (Parsed Command)) :=
  if name = "stats" then
    some <| (operands? none 0 arguments ⟨[], false⟩).map fun
      | .help => .help
      | .value _ => .value .stats
  else if name = "dump" then
    some <| (operands? (some "--raw") 0 arguments ⟨[], false⟩).map fun
      | .help => .help
      | .value read => .value (.dump read.flag)
  else if name = "get" then some (get? arguments)
  else if name = "help" then
    some (if helpTopic topCommands arguments then some .help else none)
  else none

/-- The arguments before the command. -/
structure Draft where
  log : Option String
  frameSize : Option Nat

/-- The request of a command behind its log. -/
def finish (draft : Draft) : Parsed Command → Option Request
  | .help => some .help
  | .value command =>
    draft.log.map fun log => .run ⟨log, draft.frameSize.getD defaultFrameSize, command⟩

/-- Takes the value of the frame size. -/
def withSize (draft : Draft) (value : String) : Option Draft :=
  match draft.frameSize with
  | some _ => none
  | none => (number? value).map fun n => { draft with frameSize := some n }

/-- Reads arguments up to the command and those of the command. -/
def read : List String → Draft → Option Request
  | [], _ => none
  | argument :: rest, draft =>
    match command? argument rest with
    | some command => command.bind (finish draft)
    | none =>
      if argument = "--version" ∨ argument.startsWith "-V" then some .version
      else if asksForHelp argument then some .help
      else if argument = "--frame-size" then
        match rest with
        | [] => none
        | value :: rest => (withSize draft value).bind (read rest)
      else if argument.startsWith "--frame-size=" then
        (withSize draft (argument.drop "--frame-size=".length).toString).bind (read rest)
      else if isOption argument ∨ argument.isEmpty ∨ draft.log.isSome then none
      else read rest { draft with log := some argument }

/-- What arguments ask for; nothing if they are used wrongly. -/
def ofArguments (arguments : List String) : Option Request := read arguments ⟨none, none⟩

end Request
end ParameterLog
