import TruthTables.CommandLine.Machine
import TruthTables.CommandLine.Output
import TruthTables.CommandLine.Settings
import TruthTables.Csv.Headers

/-!
# A run of the program

The arguments are completed from files and read; the headers are taken from them or from an input
file; the output file is made; the tables are built and written. The first of these that fails ends
the run, but the tables before a failing one are written.

An argument that starts with an at sign stands for the lines of a file, each of which is an argument
and may be of that kind again.
-/

namespace TruthTables.CommandLine

variable {m : Type → Type} [Monad m]

/-! ### Files of arguments -/

/-- The path of the file that an argument stands for. -/
def argumentFile? (argument : String) : Option String :=
  match argument.toList with
  | '@' :: path => some (String.ofList path)
  | _ => none

/-- The arguments in a file. -/
def readArguments (files : Files m) (path : String) : ExceptT Failure m (List String) := do
  match ← files.read path with
  | .unopened fault => throw (.unopenedArguments path fault)
  | .unread fault => throw (.unreadArguments path fault)
  | .content bytes =>
    match Text.decode bytes with
    | .ok s => return (Text.toLines s).map String.ofList
    | .error _ => throw (.unreadArguments path (.other "stream did not contain valid UTF-8"))

/-- Puts the lines of files in the place of the arguments that stand for them, down to files named
in files `depth` times over. -/
def expand (files : Files m) : Nat → List String → ExceptT Failure m (List String)
  | 0, _ => throw .endlessArguments
  | depth + 1, arguments => do
    let parts ← arguments.mapM fun argument =>
      match argumentFile? argument with
      | none => return [argument]
      | some path => do expand files depth (← readArguments files path)
    return parts.flatten

/-! ### Runs -/

/-- What is seen of a run, apart from what is written to files or to the standard output. -/
structure Outcome where
  code : UInt8
  /-- What the program tells of itself. -/
  stdout : String := ""
  stderr : String := ""
  log : List Event := []
  verbosity : Nat := 0

def Outcome.ofFailure (failure : Failure) : Outcome :=
  { code := 1, stderr := failure.report }

def versionText : String :=
  "truthtab 0.1.0\n"

def helpText : String :=
  Text.ofLines
    ["A truth-table generator for propositional formulas",
     "",
     "Usage: truthtab [OPTIONS] [ENTRIES]...",
     "",
     "Arguments:",
     "  [ENTRIES]...  Header entries, e.g. p q \x22p \\Rightarrow q\x22",
     "",
     "Options:",
     "  -i, --input <FILE>       Read headers from a CSV file, one header per line",
     "  -f, --format <FORMAT>    Output format: plain, csv or latex",
     "  -o, --output <FILE>      The output filename (or stdout if not provided)",
     "      --max-variables <N>  Refuse to build tables with more than N atomic variables",
     "  -v, --verbose...         Print more diagnostics (repeat for more)",
     "  -h, --help               Print help",
     "  -V, --version            Print version"]

/-- The entries of the headers that tables are wanted for. -/
def headers (files : Files m) (settings : Settings) : ExceptT Failure m (List (List String)) := do
  match settings.input with
  | none =>
    if settings.entries.isEmpty then throw .nothingToDo
    return [settings.entries]
  | some path =>
    match ← files.read path with
    | .unopened fault => throw (.unopenedInput path fault)
    | .unread fault => throw (.unreadInput path fault.message)
    | .content bytes =>
      match Csv.readHeaders bytes with
      | .ok headers => return headers
      | .error e => throw (.unreadInput path e.message)

/-- Where the tables are written: to a file that is made for them, or to the standard output. -/
def openOutput (files : Files m) : Option String → ExceptT Failure m (Sink m)
  | none => return files.stdout
  | some path => do
    match ← files.create path with
    | .ok sink => return sink
    | .error fault => throw (.unusableOutput fault)

/-- Builds the tables and writes them. What is held back at the end is handed over, whatever comes
of it. -/
def build (files : Files m) (settings : Settings) : ExceptT Failure m Outcome := do
  let headers ← headers files settings
  let sink ← openOutput files settings.output
  let (result, progress) ← (putTables sink settings.limit settings.format headers).run.run {}
  let _ ← (flush sink).run.run progress
  let outcome : Outcome := match result with
    | .ok () => { code := 0 }
    | .error failure => Outcome.ofFailure failure
  return { outcome with log := progress.log, verbosity := settings.verbosity }

/-- What these arguments ask for. -/
def answer (files : Files m) (depth : Nat) (environment : Option String)
    (arguments : List String) : ExceptT Failure m Outcome := do
  match Request.read environment (← expand files depth arguments) with
  | .misuse => return { code := 2 }
  | .version => return { code := 0, stdout := versionText }
  | .help => return { code := 0, stdout := helpText }
  | .build settings => build files settings

/-- A run with these arguments. Files of arguments may name each other `depth` times over. -/
def run (files : Files m) (depth : Nat) (environment : Option String) (arguments : List String) :
    m Outcome := do
  match ← (answer files depth environment arguments).run with
  | .ok outcome => return outcome
  | .error failure => return .ofFailure failure

/-- A run on a machine in memory, and the machine afterwards. Only a file can name further files of
arguments, so files that name each other more often than there are files, and then a device once, do
so without end. -/
def runOn (machine : Machine) (environment : Option String) (arguments : List String) :
    Outcome × Machine :=
  let (outcome, machine) :=
    (run Machine.access (machine.files.length + 2) environment arguments).run machine
  ({ outcome with
    stdout := machine.stdout ++ outcome.stdout
    stderr := machine.stderr ++ outcome.stderr }, machine)

end TruthTables.CommandLine
