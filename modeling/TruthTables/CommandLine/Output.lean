import TruthTables.CommandLine.Files
import TruthTables.Table.Render

/-!
# Output

Tables are built from headers and written one after the other. The first header that has no table
ends the work. What was written before it stays, although some of it may still be held back then.
-/

namespace TruthTables.CommandLine

/-- What there is of the work on some tables so far. -/
structure Progress where
  /-- What was written and not yet handed over to the sink. -/
  held : String := ""
  log : List Event := []

/-- Work on tables. What there is of it is not lost when it fails. -/
abbrev Work (m : Type → Type) := ExceptT Failure (StateT Progress m)

/-- The number of bytes that are held back at most. -/
def heldBytes : Nat := 8192

variable {m : Type → Type} [Monad m]

/-- Hands over what is held back. It stays held back if the sink does not take it. -/
def flush (sink : Sink m) : Work m Unit := do
  let text := (← get).held
  if text ≠ "" then
    match ← sink text with
    | .ok () => modify fun progress => { progress with held := "" }
    | .error fault => throw (.unusableOutput fault)

/-- Writes a text. It is held back unless that would be too much. -/
def put (sink : Sink m) (text : String) : Work m Unit := do
  modify fun progress => { progress with held := progress.held ++ text }
  if heldBytes < (← get).held.utf8ByteSize then
    flush sink

/-- The table of a header. What is logged while it is built stays logged if there is none. -/
def buildTable (limit : Limit) (entries : List String) : Work m Table := do
  let table := Table.ofTexts limit entries
  modify fun progress => { progress with log := progress.log ++ table.log }
  match table.result with
  | .ok t => return t
  | .error e => throw (.unbuilt entries e)

/-- Writes an empty line, unless nothing comes before it. -/
def putSeparator (sink : Sink m) (number : Nat) : Work m Unit :=
  if 0 < number then put sink "\n" else pure ()

/-- Writes a table. A CSV table is handed over at once. -/
def putRendered (sink : Sink m) (format : Format) (table : Table) : Work m Unit := do
  put sink (table.render format)
  if format = .csv then
    flush sink

/-- Builds the table of the header with this number and writes it. The header may have no table, so
the empty line before it is not written until the table is built. -/
def putTable (sink : Sink m) (limit : Limit) (format : Format) (number : Nat)
    (entries : List String) : Work m Unit := do
  let table ← buildTable limit entries
  putSeparator sink number
  putRendered sink format table

/-- Builds the tables of some headers and writes them. -/
def putTables (sink : Sink m) (limit : Limit) (format : Format) (headers : List (List String)) :
    Work m Unit := do
  forM headers.zipIdx fun (entries, number) => putTable sink limit format number entries
  flush sink

end TruthTables.CommandLine
