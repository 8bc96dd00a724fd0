import TruthTables.Row

/-!
# Truth tables

The variables of a header count in binary over the rows, the rightmost one fastest; the other
columns have the values of their formulas. Row numbers and block sizes are words of 64 bits, which
bounds the number of variables.
-/

namespace TruthTables

/-! ### Limits -/

/-- The number of variables that a table may have. -/
structure Limit where
  requested : UInt64 := 20

/-- No limit lets the number of rows leave a word. -/
def Limit.effective (limit : Limit) : Nat :=
  min limit.requested.toNat 63

/-- The number of rows for `count` variables. -/
def rowCount (count : Nat) : UInt64 :=
  1 <<< UInt64.ofNat count

/-- The bytes of one row in the list of all rows, for which room is made before the first row. -/
def rowBytes : Nat := 24

/-- Whether the list of all rows for `count` variables is small enough to be asked for: its bytes
must fit in a signed word. -/
def isAllocatable (count : Nat) : Bool :=
  (rowCount count).toNat * rowBytes < UInt64.size / 2

/-! ### Counting in binary -/

/-- The block sizes of columns, given which of them are variables, and the block size of a further
variable on the left. Blocks double from right to left. -/
def blocksOf : List Bool → List (Option UInt64) × UInt64
  | [] => ([], 1)
  | isVariable :: rest =>
    let (blocks, next) := blocksOf rest
    if isVariable then (some next :: blocks, next <<< 1) else (none :: blocks, next)

/-- The cell of a variable changes each time a block of rows is over. -/
def cell (row block : UInt64) : Bool :=
  row / block % 2 == 1

/-- The row with this number before any formula is evaluated: only variables have values. -/
def startRow (blocks : List (Option UInt64)) (number : Nat) : Row :=
  blocks.map fun block => block.map (cell (UInt64.ofNat number))

namespace Header

variable (header : Header)

def blocks : List (Option UInt64) :=
  (blocksOf (header.entries.map Formula.isAtomic)).1

/-- The row that follows from the values of the variables. -/
def complete (row : Row) : Logged Event TableError (List Bool) := do
  let row ← (header.fillAll row).mapEvents Event.cut
  pure (row.map (·.getD false))

/-- The events that tell the block sizes, from right to left. -/
def blockEvents : List Event :=
  ((header.entries.zip header.blocks).zipIdx.filterMap fun ((f, block), column) =>
    block.map fun size => Event.toggles column f.source size.toNat).reverse

end Header

/-! ### Tables -/

structure Table where
  header : Header
  rows : List (List Bool)
deriving DecidableEq

namespace Table

/-- Builds the table of a header. The variables are counted before anything else is done; the first
row that has no value for some column ends the work. -/
def build (limit : Limit) (header : Header) : Logged Event TableError Table :=
  let count := header.atomicCount
  let overflow := TableError.tooManyVariables count limit.effective
  if limit.effective < count then
    .fail overflow
  else do
    Logged.emit (.began header.size count (rowCount count).toNat :: header.blockEvents)
    if isAllocatable count then
      let blocks := header.blocks
      let rows ← Logged.traverse (fun number => header.complete (startRow blocks number))
        (List.range (rowCount count).toNat)
      pure ⟨header, rows⟩
    else
      .fail overflow

/-- Builds the table whose columns have these texts. -/
def ofTexts (limit : Limit) (entries : List String) : Logged Event TableError Table := do
  let header ← Logged.ofExcept (Header.ofTexts entries)
  build limit header

end Table

/-- The text of a cell. -/
def bit (value : Bool) : String :=
  if value then "1" else "0"

end TruthTables
