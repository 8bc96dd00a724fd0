import TruthTables.CommandLine.Run

/-!
# The program

The command line on the files and streams of the machine.
-/

namespace TruthTables.CommandLine

def FileFault.ofError : IO.Error → FileFault
  | .noFileOrDirectory .. => notFound
  | .inappropriateType _ 20 _ => notDirectory
  | .inappropriateType _ 21 _ => isDirectory
  | .invalidArgument _ 36 _ => nameTooLong
  | .resourceExhausted _ 28 _ => noSpace
  | e => other (toString e)

/-- Does something with a file, or says why that is not possible. -/
def attempt {α : Type} (action : IO α) : IO (Except FileFault α) := do
  match ← action.toBaseIO with
  | .ok a => return .ok a
  | .error e => return .error (.ofError e)

def readFile (path : String) : IO Reading := do
  match ← attempt (IO.FS.Handle.mk path .read) with
  | .error fault => return .unopened fault
  | .ok handle =>
    match ← attempt handle.readBinToEnd with
    | .error fault => return .unread fault
    | .ok bytes => return .content bytes.data.toList

/-- Makes a file empty, or makes an empty file, and opens it. -/
def createFile (path : String) : IO (Except FileFault (Sink IO)) := do
  match ← attempt (IO.FS.Handle.mk path .write) with
  | .error fault => return .error fault
  | .ok handle => return .ok fun text => attempt (do handle.putStr text; handle.flush)

/-- Access to the files of the machine. -/
def machineFiles : Files IO where
  read := readFile
  create := createFile
  stdout text := attempt (IO.print text)

/-- How often files of arguments may name each other. -/
def maxDepth : Nat := 1000

/-- The verbosity from which on events of a level are shown. -/
def shownFrom : Event.Level → Nat
  | .info => 1
  | .debug => 2
  | .trace => 3

end TruthTables.CommandLine

open TruthTables TruthTables.CommandLine

def main (arguments : List String) : IO UInt32 := do
  let environment ← IO.getEnv "TRUTHTAB_MAX_VARIABLES"
  let outcome ← run machineFiles maxDepth environment arguments
  for event in outcome.log do
    if shownFrom event.level ≤ outcome.verbosity then
      IO.eprintln event.line
  IO.print outcome.stdout
  IO.eprint outcome.stderr
  return outcome.code.toUInt32
