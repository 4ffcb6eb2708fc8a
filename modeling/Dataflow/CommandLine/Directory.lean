import Dataflow.Engine
import Dataflow.Text.Lines

/-!
# Directories in memory

A directory that commands read from and write to, as the texts of its files by path.

* `Directory.read` and `Directory.write` read and write a file;
* a directory exists as soon as a file lies in it, and the directory itself always does.
-/

namespace Dataflow

/-- A directory: the texts of its files by path. -/
abbrev Directory := Keyed String

namespace Directory

/-- The parts of a path. Empty parts and single dots do not count. -/
def parts (path : String) : List (List Char) :=
  (Text.split '/' path.toList).filter fun part => !part.isEmpty && part != ['.']

/-- The file with the given parts of its path. -/
def file? (path : List (List Char)) (d : Directory) : Option (String × String) :=
  List.find? (fun entry => parts entry.1 = path) d

/-- Whether one path leads through another one. -/
def leadsThrough (path : List (List Char)) (other : List (List Char)) : Bool :=
  path.isPrefixOf other && path != other

/-- Whether a path is that of a directory. -/
def isDirectory (path : List (List Char)) (d : Directory) : Bool :=
  path.isEmpty || (Keyed.keys d).any fun name => leadsThrough path (parts name)

/-- Why there is no file at a path. -/
def absence (path : List (List Char)) (d : Directory) : FileError :=
  if isDirectory path d then .isDirectory
  else if (Keyed.keys d).any fun name => leadsThrough (parts name) path then .notDirectory
  else .notFound

/-- Whether a path asks for a directory by a slash at its end. -/
def endsInSlash (path : String) : Bool :=
  path.toList.getLast? = some '/'

/-- The text of a file. -/
def read (path : String) (d : Directory) : Except FileError String :=
  match file? (parts path) d with
  | some (_, text) => if endsInSlash path then .error .notDirectory else .ok text
  | none => .error (if path.isEmpty then .notFound else absence (parts path) d)

/-- Put a text into a file, which may be new if its directory exists. -/
def write (path text : String) (d : Directory) : Except FileError Directory :=
  match file? (parts path) d with
  | some (name, _) => if endsInSlash path then .error .notDirectory else .ok (Keyed.insert name text d)
  | none =>
    if isDirectory (parts path) d then .error (if path.isEmpty then .notFound else .isDirectory)
    else if endsInSlash path then .error .isDirectory
    else if isDirectory (parts path).dropLast d then .ok (Keyed.insert path text d)
    else match absence (parts path) d with
      | .notDirectory => .error .notDirectory
      | _ => .error .notFound

end Directory

end Dataflow
