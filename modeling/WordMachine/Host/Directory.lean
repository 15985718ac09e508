import WordMachine.Host.Stream
import WordMachine.Text.Fields

/-!
# Directories

Programs and settings come from files.  What opening a path yields is an `Opened`: a file is known by
the reads that it will deliver, which may fail like those of any stream.  A `Directory` holds named
files, and a path is followed through it step by step.  Of the world outside the directory nothing is
known but that there is one: going up leads there, and no file is found there.
-/

namespace WordMachine

/-- What can be wrong with a path. -/
inductive PathFault where
  /-- Nothing has this name. -/
  | missing
  /-- The path goes on behind a file. -/
  | notDirectory
  /-- The system refuses for another reason. -/
  | other (text : String)
deriving DecidableEq, Repr

/-- The text that the system has for a fault. -/
def PathFault.text : PathFault → String
  | missing => "No such file or directory (os error 2)"
  | notDirectory => "Not a directory (os error 20)"
  | other text => text

/-- A fault as a failure of the host. -/
def PathFault.failure (f : PathFault) : Failure :=
  .io f.text

/-- What opening a path yields. -/
inductive Opened where
  /-- A file, by its reads. -/
  | file (reads : Script)
  /-- Nothing, for a reason. -/
  | nothing (why : PathFault)
deriving DecidableEq, Repr

namespace Opened

/-- A file whose content comes in one read. -/
def ofBytes (content : List UInt8) : Opened :=
  file [.bytes content]

/-- A directory, which can be opened but not read. -/
def directory : Opened :=
  file [.failure "Is a directory (os error 21)"]

/-- The reads of what was opened, or why there is nothing to read from. -/
def script : Opened → Except PathFault Script
  | file reads => .ok reads
  | nothing why => .error why

/-- The whole content of what was opened. -/
def content : Opened → Except Failure (List UInt8)
  | file reads => reads.readAll []
  | nothing why => .error why.failure

end Opened

/-- Named files. -/
abbrev Directory := List (String × List UInt8)

namespace Directory

/-- A point on the way along a path. -/
inductive Place where
  /-- A directory inside, by the names that lead to it in reverse order. -/
  | inside (names : List String)
  /-- A directory somewhere outside. -/
  | outside
  /-- A file. -/
  | file (content : List UInt8)
deriving DecidableEq, Repr

/-- The name of the place that names lead to. -/
def join (names : List String) : String :=
  String.intercalate "/" names.reverse

/-- The place with a given name in the directory itself. -/
def place? (d : Directory) (names : List String) : Option Place :=
  match d.find? fun f => f.1 = join names with
  | some f => some (.file f.2)
  | none =>
    if d.any fun f => (join names ++ "/").toList.isPrefixOf f.1.toList then
      some (.inside names)
    else
      none

/-- Goes one name further. -/
def follow (d : Directory) (name : String) : Place → Except PathFault Place
  | .file _ => .error .notDirectory
  | .outside =>
    if name = "" ∨ name = "." ∨ name = ".." then .ok .outside else .error .missing
  | .inside names =>
    if name = "" ∨ name = "." then
      .ok (.inside names)
    else if name = ".." then
      match names with
      | [] => .ok .outside
      | _ :: above => .ok (.inside above)
    else
      match d.place? (name :: names) with
      | some p => .ok p
      | none => .error .missing

/-- Goes along names one after another. -/
def followAll (d : Directory) : List String → Place → Except PathFault Place
  | [], p => .ok p
  | name :: rest, p =>
    match d.follow name p with
    | .ok p => d.followAll rest p
    | .error e => .error e

/-- Opens a path.  An empty path is that of the directory itself, and one that starts with a slash
starts outside. -/
def openPath (d : Directory) (path : String) : Opened :=
  let start : Place := if path.toList.head? = some '/' then .outside else .inside []
  match d.followAll (fields '/' path) start with
  | .ok (.file content) => .ofBytes content
  | .ok _ => .directory
  | .error why => .nothing why

end Directory

end WordMachine
