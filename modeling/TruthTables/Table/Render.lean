import TruthTables.Table
import TruthTables.Text.Blank
import TruthTables.Text.Layout

/-!
# Output formats

The text of a table: aligned, with columns as wide as their names and bars between them; as CSV,
with records of fields, one on each line; or in LaTeX, as a centered tabular with every cell in math
mode.
-/

namespace TruthTables

open Text

/-! ### Aligned text -/

namespace Table

/-- The cells, each filled with spaces to its width, with bars between them. Blank characters at the
end of the line are left out. -/
def plainLine (widths : List Nat) (cells : List String) : String :=
  let line := " | ".intercalate (List.zipWith (pad .left) widths cells)
  String.ofList (trimEnd line.toList)

def plain (table : Table) : String :=
  let widths := table.header.names.map String.length
  ofLines (plainLine widths table.header.names ::
    table.rows.map fun row => plainLine widths (row.map bit))

end Table

/-! ### CSV -/

namespace Csv

/-- A field with such a character is quoted. -/
def needsQuotes (c : Char) : Bool :=
  c = ',' || c = '\x22' || c = '\r' || c = '\n'

/-- Writes every quote twice. -/
def doubleQuotes (s : List Char) : List Char :=
  s.flatMap fun c => if c = '\x22' then [c, c] else [c]

def quoteField (field : String) : String :=
  if field.toList.any needsQuotes then
    "\x22" ++ String.ofList (doubleQuotes field.toList) ++ "\x22"
  else field

/-- One record. A record that would be an empty line is written as an empty quoted field. -/
def writeRecord (fields : List String) : String :=
  let line := ",".intercalate (fields.map quoteField)
  if line = "" then "\x22\x22" else line

def write (records : List (List String)) : String :=
  Text.ofLines (records.map writeRecord)

end Csv

/-- The names of the columns as the first record, and one record a row. -/
def Table.csv (table : Table) : String :=
  Csv.write (table.header.names :: table.rows.map (·.map bit))

/-! ### LaTeX -/

namespace Table

/-- The cells of one line, between alignment tabs. -/
def latexLine (cells : List String) : String :=
  " & ".intercalate (cells.map fun cell => "$" ++ cell ++ "$") ++ "\\\\"

/-- The columns declared: each is centered and has a rule at its right. -/
def latexColumns (n : Nat) : String :=
  "|" ++ String.join (List.replicate n "c|")

def latex (table : Table) : String :=
  ofLines <|
    ["\\begin\x7bcenter\x7d",
     " \\begin\x7btabular\x7d\x7b" ++ latexColumns table.header.size ++ "\x7d",
     " \\hline",
     latexLine table.header.names,
     "\\hline"] ++
    table.rows.map (fun row => latexLine (row.map bit)) ++
    ["\\hline",
     "\\end\x7btabular\x7d",
     "\\end\x7bcenter\x7d"]

end Table

/-! ### Formats -/

inductive Format where
  | plain
  | csv
  | latex
deriving DecidableEq, Repr

/-- The format with this name. -/
def Format.ofName? : String → Option Format
  | "plain" => some plain
  | "csv" => some csv
  | "latex" => some latex
  | _ => none

def Table.render (table : Table) : Format → String
  | .plain => table.plain
  | .csv => table.csv
  | .latex => table.latex

end TruthTables
