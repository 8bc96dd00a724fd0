import TruthTables.Table.Render

/-!
# Settings

What the arguments of the program mean. They are read from left to right; what is wrong is noticed
where it stands, except for what the arguments as a whole must satisfy.
-/

namespace TruthTables.CommandLine

structure Settings where
  /-- The texts of the columns of the only table. -/
  entries : List String := []
  /-- The file that headers are read from. -/
  input : Option String := none
  format : Format := .plain
  /-- The file that tables are written to. -/
  output : Option String := none
  limit : Limit := {}
  verbosity : Nat := 0

/-- What the program is asked for. -/
inductive Request where
  | build (settings : Settings)
  | version
  | help
  /-- The arguments are not understood. -/
  | misuse

/-! ### Options -/

/-- The options that have a value. -/
inductive Valued where
  | input
  | format
  | output
  | maxVariables
deriving DecidableEq, Repr

/-- The options that have none. -/
inductive Flag where
  | verbose
  | version
  | help
deriving DecidableEq, Repr

inductive Switch where
  | valued (option : Valued)
  | flag (option : Flag)
deriving DecidableEq, Repr

namespace Switch

def ofLong? : String → Option Switch
  | "input" => some (valued .input)
  | "format" => some (valued .format)
  | "output" => some (valued .output)
  | "max-variables" => some (valued .maxVariables)
  | "verbose" => some (flag .verbose)
  | "version" => some (flag .version)
  | "help" => some (flag .help)
  | _ => none

def ofShort? : Char → Option Switch
  | 'i' => some (valued .input)
  | 'f' => some (valued .format)
  | 'o' => some (valued .output)
  | 'v' => some (flag .verbose)
  | 'V' => some (flag .version)
  | 'h' => some (flag .help)
  | _ => none

end Switch

/-- The number that a text of decimal digits stands for, if a word can hold it. A plus sign may
stand in front. -/
def readNumber? (s : String) : Option UInt64 :=
  let digits := match s.toList with
    | '+' :: digits => digits
    | digits => digits
  if digits ≠ [] ∧ digits.all Char.isDigit then
    let n := digits.foldl (fun n c => 10 * n + (c.toNat - '0'.toNat)) 0
    if n < UInt64.size then some (UInt64.ofNat n) else none
  else none

/-! ### Reading arguments -/

/-- The arguments read so far. An option that was not given is `none`. -/
structure Draft where
  entries : List String := []
  input : Option String := none
  format : Option Format := none
  output : Option String := none
  limit : Option Limit := none
  verbosity : Nat := 0

/-- Why reading stops early. -/
inductive Stop where
  | version
  | help
  | misuse
deriving DecidableEq, Repr

namespace Draft

def raise (d : Draft) : Flag → Except Stop Draft
  | .verbose => .ok { d with verbosity := d.verbosity + 1 }
  | .version => .error .version
  | .help => .error .help

/-- Gives an option its value. It may have none yet, and no value is empty. -/
def assign (d : Draft) (option : Valued) (value : String) : Except Stop Draft :=
  if value = "" then .error .misuse
  else match option with
    | .input =>
      if d.input.isSome then .error .misuse else .ok { d with input := some value }
    | .output =>
      if d.output.isSome then .error .misuse else .ok { d with output := some value }
    | .format =>
      match d.format, Format.ofName? value with
      | none, some format => .ok { d with format := some format }
      | _, _ => .error .misuse
    | .maxVariables =>
      match d.limit, readNumber? value with
      | none, some n => .ok { d with limit := some ⟨n⟩ }
      | _, _ => .error .misuse

/-- Whether an argument is an option. A single hyphen is none. -/
def isOption (argument : String) : Bool :=
  match argument.toList with
  | '-' :: _ :: _ => true
  | _ => false

/-- Drops an equals sign in front of a value. -/
def dropEquals : List Char → List Char
  | '=' :: value => value
  | value => value

/-- Reads a cluster of short options, behind its hyphen. The last one may have its value behind it
in the cluster; otherwise it is handed back, to have the next argument as its value. -/
def readShort (d : Draft) : List Char → Except Stop (Draft × Option Valued)
  | [] => .ok (d, none)
  | c :: rest =>
    match Switch.ofShort? c with
    | none => .error .misuse
    | some (.flag option) => do (← d.raise option).readShort rest
    | some (.valued option) =>
      if rest = [] then .ok (d, some option)
      else do return (← d.assign option (String.ofList (dropEquals rest)), none)

/-- Reads a long option, behind its hyphens. Its value may stand behind an equals sign; otherwise
an option that must have one is handed back, to have the next argument as its value. -/
def readLong (d : Draft) (s : List Char) : Except Stop (Draft × Option Valued) :=
  let name := String.ofList (s.takeWhile (· ≠ '='))
  match Switch.ofLong? name, s.dropWhile (· ≠ '=') with
  | some (.flag option), [] => do return (← d.raise option, none)
  | some (.valued option), [] => .ok (d, some option)
  | some (.valued option), _ :: value => do return (← d.assign option (String.ofList value), none)
  | _, _ => .error .misuse

/-- Reads an option. -/
def readOption (d : Draft) (argument : String) : Except Stop (Draft × Option Valued) :=
  match argument.toList.drop 1 with
  | '-' :: name => d.readLong name
  | cluster => d.readShort cluster

/-- Reads arguments, the first of which is the value of `pending` if that is an option. Behind two
hyphens there are entries only. -/
def readFrom (d : Draft) (pending : Option Valued) : List String → Except Stop Draft
  | [] => if pending.isSome then .error .misuse else .ok d
  | argument :: rest =>
    match pending with
    | some option => do
      if isOption argument then throw .misuse
      (← d.assign option argument).readFrom none rest
    | none =>
      if argument = "--" then
        .ok { d with entries := d.entries ++ rest }
      else if isOption argument then do
        let (d, pending) ← d.readOption argument
        d.readFrom pending rest
      else
        { d with entries := d.entries ++ [argument] }.readFrom none rest

/-- What the arguments amount to. A number in the environment stands in for the option that limits
the variables, and entries cannot go with an input file. -/
def settings? (d : Draft) (environment : Option String) : Option Settings := do
  let limit ← match d.limit, environment with
    | some limit, _ => some limit
    | none, some value => (readNumber? value).map Limit.mk
    | none, none => some {}
  if d.input.isSome && !d.entries.isEmpty then none
  return ⟨d.entries, d.input, d.format.getD .plain, d.output, limit, d.verbosity⟩

end Draft

/-- What the arguments ask for, where the environment may limit the number of variables. -/
def Request.read (environment : Option String) (arguments : List String) : Request :=
  match ({} : Draft).readFrom none arguments with
  | .error .version => version
  | .error .help => help
  | .error .misuse => misuse
  | .ok d =>
    match d.settings? environment with
    | some settings => build settings
    | none => misuse

end TruthTables.CommandLine
