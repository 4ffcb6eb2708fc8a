import Dataflow.CommandLine

/-!
# The program

Reads arguments and files, prints, and lets real time pass; what it prints is decided elsewhere.
-/

namespace Dataflow.Program

/-- Why the system refuses a file. -/
def fileError : IO.Error → FileError
  | .noFileOrDirectory .. => .notFound
  | .noSuchThing .. => .notFound
  | .inappropriateType .. => .isDirectory
  | e => .other (toString e)

/-- The text of a file. -/
def readFile (path : String) : IO (Except FileError String) := do
  try
    let bytes ← IO.FS.readBinFile path
    match String.fromUTF8? bytes with
    | some text => return .ok text
    | none => return .error .notText
  catch e => return .error (fileError e)

/-- The files that a command may read. -/
def readFiles (paths : List String) : IO Files := do
  let texts ← paths.mapM fun path => do return (path, ← readFile path)
  return fun path => (texts.lookup path).getD (.error .notFound)

/-- A supply of identifiers that begins at a random place. -/
def randomSupply : IO Supply := do
  let bytes ← IO.getRandomBytes 12
  return ⟨bytes.toList.foldl (fun n b => 256 * n + b.toNat) 0 * UInt32.size⟩

/-- Print lines. -/
def printLines (lines : List String) : IO Unit := do
  let out ← IO.getStdout
  lines.forM fun line => out.putStrLn line
  out.flush

/-- Print the lines about a failure. -/
def printErrors (lines : List String) : IO Unit := do
  let err ← IO.getStderr
  lines.forM fun line => err.putStrLn line

/-- Lines that were typed and not obeyed yet. -/
abbrev Typed := IO.Ref (List String)

/-- Collect typed lines until the input ends. -/
partial def listen (input : IO.FS.Stream) (typed : Typed) : IO Unit := do
  let line ← input.getLine
  if line.isEmpty then return
  typed.modify (· ++ [line])
  listen input typed

/-- Take the next typed line. -/
def nextTyped? (typed : Typed) : IO (Option String) :=
  typed.modifyGet fun
    | [] => (none, [])
    | line :: rest => (some line, rest)

/-- How many milliseconds to sleep at a time while a run waits. -/
def napLength : Nat := 5

/-- Take a session to its end, obeying typed lines as they come. -/
partial def attend (typed : Typed) (s : Session) : IO Session := do
  if s.isOver then return s
  match s.ready? with
  | some (lines, s) =>
    printLines lines
    attend typed s
  | none =>
    match ← nextTyped? typed with
    | some line =>
      let (lines, s) := s.enter line
      printLines lines
      attend typed s
    | none =>
      let nap := min napLength (s.wait?.getD napLength)
      let before ← IO.monoMsNow
      IO.sleep nap.toUInt32
      attend typed (s.pass (max nap ((← IO.monoMsNow) - before)))

/-- Carry out a command. -/
def carryOut (command : Command) : IO Report := do
  let files ← readFiles command.paths
  match command.begin files (← randomSupply) with
  | .done report => return report
  | .writing path text report =>
    try
      IO.FS.writeFile path text
      return report
    catch e => return .ofFileError (fileError e)
  | .running lines session =>
    printLines lines
    let typed ← IO.mkRef []
    if command.takesTypedLines then
      discard (IO.asTask (listen (← IO.getStdin) typed) .dedicated)
    let session ← attend typed session
    let (lines, failure) := session.ending?.getD ([], none)
    return ⟨lines, failure⟩

end Dataflow.Program

open Dataflow in
/-- The program. -/
def main (arguments : List String) : IO UInt32 := do
  match Command.read arguments with
  | .error e =>
    Program.printErrors e.lines
    return UsageError.status.toUInt32
  | .ok command =>
    let report ← Program.carryOut command
    Program.printLines report.lines
    Program.printErrors report.errorLines
    return report.status.toUInt32
