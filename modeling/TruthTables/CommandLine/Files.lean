import TruthTables.Error

/-!
# Files and failures

What the program needs of the files around it, why a file cannot be used, and how a run fails.
-/

namespace TruthTables.CommandLine

inductive FileFault where
  | notFound
  | notDirectory
  | isDirectory
  | nameTooLong
  | nulInName
  | noSpace
  /-- Any other fault, with its text. -/
  | other (text : String)
deriving DecidableEq, Repr

def FileFault.message : FileFault → String
  | notFound => "No such file or directory (os error 2)"
  | notDirectory => "Not a directory (os error 20)"
  | isDirectory => "Is a directory (os error 21)"
  | nameTooLong => "File name too long (os error 36)"
  | nulInName => "file name contained an unexpected NUL byte"
  | noSpace => "No space left on device (os error 28)"
  | other text => text

/-- What comes of reading a file. -/
inductive Reading where
  | content (bytes : List UInt8)
  /-- The file cannot be opened. -/
  | unopened (fault : FileFault)
  /-- The file can be opened and cannot be read. -/
  | unread (fault : FileFault)
deriving DecidableEq, Repr

/-- Puts a text behind those it was given before, or says why that is not possible. -/
abbrev Sink (m : Type → Type) := String → m (Except FileFault Unit)

/-- Access to files by their paths, and to the standard output. -/
structure Files (m : Type → Type) where
  read : String → m Reading
  /-- Makes a file empty, or makes an empty file, and opens it. -/
  create : String → m (Except FileFault (Sink m))
  stdout : Sink m

/-! ### Failures -/

/-- Why a run of the program fails after its arguments were understood, or before they were all
there. -/
inductive Failure where
  /-- There is nothing to make a table of. -/
  | nothingToDo
  | unopenedArguments (path : String) (fault : FileFault)
  | unreadArguments (path : String) (fault : FileFault)
  /-- Files of arguments name each other without end. -/
  | endlessArguments
  | unopenedInput (path : String) (fault : FileFault)
  /-- An input file cannot be read for a reason that is given as text. -/
  | unreadInput (path : String) (reason : String)
  /-- The output file cannot be made or written. -/
  | unusableOutput (fault : FileFault)
  | unbuilt (entries : List String) (error : TableError)
deriving DecidableEq, Repr

namespace Failure

def message : Failure → String
  | nothingToDo => "Must provide header entries or an input file"
  | unopenedArguments path _ => "failed to open file \x60" ++ path ++ "\x60"
  | unreadArguments path _ => "failed to read from file \x60" ++ path ++ "\x60"
  | endlessArguments => "files of arguments name each other without end"
  | unopenedInput path _ => "cannot open " ++ path
  | unreadInput path _ => "cannot read headers from " ++ path
  | unusableOutput fault => fault.message
  | unbuilt entries _ => "cannot build truth table for [" ++ ", ".intercalate entries ++ "]"

/-- What lies behind a failure, if the message does not say it. -/
def cause? : Failure → Option String
  | nothingToDo | endlessArguments | unusableOutput _ => none
  | unopenedArguments _ fault | unreadArguments _ fault | unopenedInput _ fault =>
    some fault.message
  | unreadInput _ reason => some reason
  | unbuilt _ error => some error.message

/-- Indents the lines of a text by four spaces. -/
def indent (s : String) : String :=
  "    " ++ String.ofList (s.toList.flatMap fun c => if c = '\n' then "\n    ".toList else [c])

/-- The text that tells a failure. -/
def report (failure : Failure) : String :=
  match failure.cause? with
  | none => "Error: " ++ failure.message ++ "\n"
  | some cause => "Error: " ++ failure.message ++ "\n\nCaused by:\n" ++ indent cause ++ "\n"

end Failure

end TruthTables.CommandLine
