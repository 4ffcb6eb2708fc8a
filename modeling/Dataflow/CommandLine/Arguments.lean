import Dataflow.Text.Digits

/-!
# Arguments of the command line

* `Command` is what the command line asks for, with `RunOptions` for a run;
* `Command.read` reads the arguments; `UsageError` says what is wrong with them.

Options stand anywhere after the name of the command, `-v` also before it. A long option has its value in
the next argument or after an equals sign, a short one also right behind its letter, and short flags may
share a hyphen. After two hyphens there are no more options.
-/

namespace Dataflow

/-- What a run is asked to do. -/
structure RunOptions where
  file : String
  context : Option String := none
  config : Option String := none
  /-- The pause between iterations, in milliseconds. -/
  delay : Option Nat := none
  maxRelayDepth : Option Nat := none
  /-- After how many milliseconds to cancel. -/
  timeout : Option Nat := none
  /-- Whether to pause before every iteration. -/
  step : Bool := false
  deriving DecidableEq, Repr

/-- What the command line asks for. -/
inductive Command where
  | run (options : RunOptions)
  | validate (file : String)
  | nodes
  | init (output : String)
  deriving DecidableEq, Repr

/-- What is wrong with the arguments. -/
inductive UsageError where
  | missingCommand
  | unknownCommand (name : String)
  | unexpected (argument : String)
  | repeated (option : String)
  | missingValue (option : String)
  | unwantedValue (option : String)
  | badNumber (option value : String)
  | missing (what : String)
  deriving DecidableEq, Repr

/-- The wording of a usage error. -/
def UsageError.message : UsageError → String
  | missingCommand => "no command given"
  | unknownCommand name => "unknown command '" ++ name ++ "'"
  | unexpected argument => "unexpected argument '" ++ argument ++ "'"
  | repeated option => "'" ++ option ++ "' is given twice"
  | missingValue option => "'" ++ option ++ "' needs a value"
  | unwantedValue option => "'" ++ option ++ "' takes no value"
  | badNumber option value => "invalid value '" ++ value ++ "' for '" ++ option ++ "'"
  | missing what => "'" ++ what ++ "' is not given"

/-- The form of an option: its name, its letter, and whether it has a value. -/
structure OptionForm where
  name : String
  letter : Option Char
  hasValue : Bool

/-- An argument that was read: an option, with its value if it has one, or something else. -/
inductive Argument where
  | option (name : String) (value : String)
  | positional (text : String)
  deriving DecidableEq, Repr

namespace Argument

/-- Whether an argument looks like an option, so that it is no value. -/
def looksLikeOption (argument : String) : Bool :=
  match argument.toList with
  | '-' :: _ :: _ => true
  | _ => false

/-- Cut a text at its first equals sign. -/
def cutAtEquals (text : List Char) : List Char × Option (List Char) :=
  match text.dropWhile (· != '=') with
  | [] => (text, none)
  | _ :: value => (text.takeWhile (· != '='), some value)

/-- Take the value of an option from the arguments after it. -/
def takeValue (name : String) : List String → Except UsageError (String × List String)
  | [] => .error (.missingValue name)
  | value :: rest => if looksLikeOption value then .error (.missingValue name) else .ok (value, rest)

/-- Read a long option, given without its hyphens. -/
def readLong (forms : List OptionForm) (text : List Char) (rest : List String) :
    Except UsageError (List Argument × List String) := do
  let (name, value) := cutAtEquals text
  let name := String.ofList name
  let some form := forms.find? (·.name = name) | throw (.unexpected ("--" ++ name))
  match form.hasValue, value with
  | true, some value => return ([option name (String.ofList value)], rest)
  | true, none => (takeValue name rest).map fun (value, rest) => ([option name value], rest)
  | false, some _ => throw (.unwantedValue name)
  | false, none => return ([option name ""], rest)

/-- Read the letters behind a hyphen; one with a value ends them. -/
def readLetters (forms : List OptionForm) :
    List Char → List String → Except UsageError (List Argument × List String)
  | [], rest => .ok ([], rest)
  | c :: letters, rest => do
    let some form := forms.find? (·.letter = some c) | throw (.unexpected ("-" ++ c.toString))
    if form.hasValue then
      match letters with
      | [] => (takeValue form.name rest).map fun (value, rest) => ([option form.name value], rest)
      | '=' :: value | value => return ([option form.name (String.ofList value)], rest)
    else
      let (others, rest) ← readLetters forms letters rest
      return (option form.name "" :: others, rest)

/-- Read arguments one after the other. Every one takes at least its own place, so that `fuel` may be
their number. -/
def readAll (forms : List OptionForm) : (fuel : Nat) → List String → Except UsageError (List Argument)
  | _, [] => .ok []
  | 0, _ => .ok []
  | fuel + 1, argument :: rest =>
    match argument.toList with
    | ['-', '-'] => .ok (rest.map positional)
    | '-' :: '-' :: name => do
      let (read, rest) ← readLong forms name rest
      return read ++ (← readAll forms fuel rest)
    | '-' :: c :: letters => do
      let (read, rest) ← readLetters forms (c :: letters) rest
      return read ++ (← readAll forms fuel rest)
    | _ => (readAll forms fuel rest).map (positional argument :: ·)

/-- The names of the options among arguments. -/
def optionNames (arguments : List Argument) : List String :=
  arguments.filterMap fun
    | option name _ => some name
    | positional _ => none

/-- The first name that occurs again later. -/
def repeated? : List String → Option String
  | [] => none
  | name :: rest => if rest.contains name then some name else repeated? rest

/-- Read all arguments. No option may be given twice. -/
def read (forms : List OptionForm) (arguments : List String) : Except UsageError (List Argument) := do
  let arguments ← readAll forms arguments.length arguments
  match repeated? (optionNames arguments) with
  | some name => throw (.repeated name)
  | none => return arguments

/-- The value of an option. -/
def value? (arguments : List Argument) (name : String) : Option String :=
  arguments.findSome? fun
    | option other value => if other = name then some value else none
    | positional _ => none

/-- Whether a flag is given. -/
def isGiven (arguments : List Argument) (name : String) : Bool :=
  (value? arguments name).isSome

/-- The value of an option for a natural number of 64 bits. -/
def natural? (arguments : List Argument) (name : String) : Except UsageError (Option Nat) :=
  match value? arguments name with
  | none => .ok none
  | some value =>
    match (Text.natural? value.toList).filter (· < UInt64.size) with
    | some n => .ok (some n)
    | none => .error (.badNumber name value)

/-- The value of an option for a path, which is never empty. -/
def path? (arguments : List Argument) (name : String) : Except UsageError (Option String) :=
  match value? arguments name with
  | some "" => .error (.missingValue name)
  | path => .ok path

/-- The arguments that are no options. -/
def positionals (arguments : List Argument) : List String :=
  arguments.filterMap fun
    | option .. => none
    | positional text => some text

/-- Refuse arguments that are no options. -/
def noPositionals (arguments : List Argument) : Except UsageError Unit :=
  match positionals arguments with
  | [] => .ok ()
  | argument :: _ => .error (.unexpected argument)

end Argument

namespace Command

/-- The flag that every command knows. It asks for more log output, of which this program has none. -/
def verbose : OptionForm := ⟨"verbose", some 'v', false⟩

/-- The options of a run. -/
def runForms : List OptionForm :=
  [verbose, ⟨"file", some 'f', true⟩, ⟨"context", some 'c', true⟩, ⟨"config", none, true⟩, ⟨"delay", none, true⟩,
   ⟨"max-relay-depth", none, true⟩, ⟨"timeout-ms", none, true⟩, ⟨"step", none, false⟩]

/-- Read the arguments of a run. -/
def readRun (arguments : List String) : Except UsageError Command := do
  let arguments ← Argument.read runForms arguments
  Argument.noPositionals arguments
  let some file ← Argument.path? arguments "file" | throw (.missing "file")
  return run
    { file
      context := Argument.value? arguments "context"
      config := ← Argument.path? arguments "config"
      delay := ← Argument.natural? arguments "delay"
      maxRelayDepth := ← Argument.natural? arguments "max-relay-depth"
      timeout := ← Argument.natural? arguments "timeout-ms"
      step := Argument.isGiven arguments "step" }

/-- Read the arguments of a validation. -/
def readValidate (arguments : List String) : Except UsageError Command := do
  match Argument.positionals (← Argument.read [verbose] arguments) with
  | [] | [""] => throw (.missing "file")
  | [file] => return validate file
  | _ :: argument :: _ => throw (.unexpected argument)

/-- Read the arguments of the list of node types. -/
def readNodes (arguments : List String) : Except UsageError Command := do
  Argument.noPositionals (← Argument.read [verbose] arguments)
  return nodes

/-- Where the example graph goes unless the arguments say otherwise. -/
def standardOutput : String := "graph.json"

/-- Read the arguments for an example graph. -/
def readInit (arguments : List String) : Except UsageError Command := do
  let arguments ← Argument.read [verbose, ⟨"output", some 'o', true⟩] arguments
  Argument.noPositionals arguments
  return init ((← Argument.path? arguments "output").getD standardOutput)

/-- Whether an argument before the name of the command is the flag that every command knows. -/
def isVerbose (argument : String) : Bool :=
  argument = "-v" || argument = "--verbose"

/-- Read the name of the command and its arguments. -/
def readNamed : List String → Except UsageError Command
  | [] => .error .missingCommand
  | "run" :: rest => readRun rest
  | "validate" :: rest => readValidate rest
  | "nodes" :: rest => readNodes rest
  | "init" :: rest => readInit rest
  | name :: _ => .error (if Argument.looksLikeOption name then .unexpected name else .unknownCommand name)

/-- Read the arguments of the program. -/
def read (arguments : List String) : Except UsageError Command :=
  if 1 < (arguments.takeWhile isVerbose).length then .error (.repeated "verbose")
  else readNamed (arguments.dropWhile isVerbose)

end Command

end Dataflow
