import Dataflow.CommandLine
import Dataflow.CommandLine.Directory

/-!
# The program as a function

What the program prints and leaves behind, given its arguments, a directory in memory, and somebody who
types lines. Time passes as on the clock of a schedule.

* `Typist` is who types: which printed lines ask for a typed line, and what is typed then;
* `Session.converse` takes a run to its end with a typist;
* `Transcript` is all that a run of the program leaves, `Transcript.ofArguments` the program itself.
-/

namespace Dataflow

/-- Somebody who types a line for each printed line that asks for one. -/
structure Typist where
  /-- Whether a printed line asks for a typed one. -/
  isAskedBy : String → Bool
  /-- The lines that are still to be typed. -/
  lines : List String
  /-- What is typed when there are none left. -/
  last : String

/-- The next line that is typed. -/
def Typist.next (t : Typist) : String × Typist :=
  match t.lines with
  | [] => (t.last, t)
  | line :: lines => (line, { t with lines })

/-- A session with the lines printed so far, and the number of those that wait for a typed line. -/
structure Dialogue where
  session : Session
  typist : Typist
  owed : Nat
  printed : List String

namespace Dialogue

/-- Print lines, each of which may ask for a typed one. -/
def print (d : Dialogue) (lines : List String) (session : Session) : Dialogue :=
  { d with session, printed := d.printed ++ lines, owed := d.owed + lines.countP d.typist.isAskedBy }

/-- What is next: the run goes on, a line is typed, or time passes. -/
def advance? (d : Dialogue) : Option Dialogue :=
  if d.session.isOver then none
  else match d.session.ready? with
    | some (lines, session) => some (d.print lines session)
    | none =>
      if 0 < d.owed then
        let (line, typist) := d.typist.next
        let (lines, session) := d.session.enter line
        some ({ d with typist, owed := d.owed - 1 }.print lines session)
      else d.session.wait?.map fun ms => { d with session := d.session.pass ms }

/-- Go on for at most the given number of steps. -/
def runFor : Nat → Dialogue → Dialogue
  | 0, d => d
  | fuel + 1, d =>
    match d.advance? with
    | none => d
    | some d => runFor fuel d

/-- What the dialogue printed, up to the end of the run if it has come. -/
def report (d : Dialogue) : Report :=
  match d.session.ending? with
  | some (lines, failure) => ⟨d.printed ++ lines, failure⟩
  | none => ⟨d.printed, none⟩

end Dialogue

/-- What a run of the program leaves. -/
structure Transcript where
  status : Nat
  output : List String
  errors : List String
  directory : Directory

namespace Transcript

/-- The transcript of a command with a report. -/
def ofReport (r : Report) (d : Directory) : Transcript :=
  ⟨r.status, r.lines, r.errorLines, d⟩

/-- Carry out a command. -/
def ofCommand (fuel : Nat) (typist : Typist) (supply : Supply) (d : Directory) (command : Command) : Transcript :=
  match command.begin (Directory.read · d) supply with
  | .done report => ofReport report d
  | .writing path text report =>
    match Directory.write path text d with
    | .ok d => ofReport report d
    | .error e => ofReport (.ofFileError e) d
  | .running lines session =>
    let typist := if command.takesTypedLines then typist else { typist with isAskedBy := fun _ => false }
    let start : Dialogue := { session, typist, owed := 0, printed := [] }
    ofReport ((start.print lines session).runFor fuel).report d

/-- Carry out what the arguments ask for. Wrong arguments have a status of their own. -/
def ofArguments (fuel : Nat) (typist : Typist) (supply : Supply) (d : Directory) (arguments : List String) :
    Transcript :=
  match Command.read arguments with
  | .error e => ⟨UsageError.status, [], e.lines, d⟩
  | .ok command => ofCommand fuel typist supply d command

end Transcript

end Dataflow
