import TruthTables.Header
import TruthTables.Evaluation

/-!
# Rows

A row gives values to some of the columns of a header. The values of the others are found by
evaluating their formulas, and a column that has a value stands for it in every formula in which
its tokens occur as an operand.
-/

namespace TruthTables

/-- The values of the columns from left to right. Columns past the end have none. -/
abbrev Row := List (Option Bool)

/-- The value of a column. -/
def Row.value? (row : Row) (column : Nat) : Option Bool :=
  row[column]?.join

namespace Header

variable (header : Header) (row : Row)

/-- The value of the column with these tokens. -/
def lookup (ts : List Token) : Option Bool :=
  (header.position? ts).bind row.value?

/-- The value of a formula under a row. -/
def evaluate (f : Formula) : Logged Cut TableError Bool :=
  (TruthTables.evaluate (header.lookup row) f.tokens).mapFailure (Fault.inFormula f.source)

/-- The value of the formula with this text. -/
def evaluateText (source : String) : Logged Cut TableError Bool := do
  let f ← Logged.ofExcept (Formula.parse source)
  header.evaluate row f

/-- Evaluates the formula of one column and stores its value in the row. -/
def fill (column : Nat) (f : Formula) : Logged Cut TableError Row := do
  let value ← header.evaluate row f
  pure (row.set column (some value))

/-- Fills the columns that have no value, from left to right, starting at `column` with the first of
`entries`. -/
def fillFrom (header : Header) (column : Nat) : List Formula → Row → Logged Cut TableError Row
  | [], row => pure row
  | f :: entries, row => do
    let row ← if (row.value? column).isNone then header.fill row column f else pure row
    header.fillFrom (column + 1) entries row

/-- Fills all columns that have no value. -/
def fillAll : Logged Cut TableError Row :=
  header.fillFrom 0 header.entries row

end Header

/-- The value of a formula under a row of a header, all given as texts. -/
def evaluateTexts (entries : List String) (row : Row) (source : String) :
    Logged Cut TableError Bool := do
  let header ← Logged.ofExcept (Header.ofTexts entries)
  header.evaluateText row source

end TruthTables
