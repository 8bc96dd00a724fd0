import TruthTables.Token

/-!
# Errors

Why a formula is malformed, and why a header, an evaluation or a table fails.
-/

namespace TruthTables

/-- What is wrong with the tokens of a formula. -/
inductive Defect where
  /-- There are none. -/
  | empty
  /-- A parenthesis is never closed. -/
  | unclosedParen
  /-- This token cannot stand where it stands. -/
  | unexpected (t : Token)
  /-- An operand is missing. -/
  | missingOperand
  /-- A word looks like the canonical spelling of a connective and is not one. -/
  | unknownOperator (word : String)
  /-- Something stands before a negation. -/
  | leftOperand (op : Connective)
  /-- Several tokens stand side by side with no connective between them. -/
  | unjoined (ts : List Token)
deriving DecidableEq, Repr

def Defect.reason : Defect → String
  | empty => "empty formula"
  | unclosedParen => "unclosed '('"
  | unexpected t => "unexpected '" ++ t.text ++ "'"
  | missingOperand => "missing operand"
  | unknownOperator word => "unknown operator '" ++ word ++ "'"
  | leftOperand op => "'" ++ op.canonical ++ "' does not take a left operand"
  | unjoined ts => "no operator joins '" ++ normalize ts ++ "'"

/-- Why a list of tokens has no value. -/
inductive Fault where
  /-- A name has no column with a value. -/
  | unresolved (word : String)
  | defect (d : Defect)
deriving DecidableEq, Repr

/-- Each error names the text of the entry or formula at fault, where there is one. -/
inductive TableError where
  | duplicateEntry (entry : String)
  | unresolvedReference (formula word : String)
  | malformedFormula (formula : String) (d : Defect)
  | tooManyVariables (count limit : Nat)
deriving DecidableEq, Repr

namespace TableError

def message : TableError → String
  | duplicateEntry entry => "duplicate header entry '" ++ entry ++ "'"
  | unresolvedReference formula word =>
    "unresolved reference '" ++ word ++ "' in formula '" ++ formula ++ "'"
  | malformedFormula formula d => "malformed formula '" ++ formula ++ "': " ++ d.reason
  | tooManyVariables count limit =>
    toString count ++ " atomic variables exceed the maximum of " ++ toString limit

end TableError

/-- The error that a fault found in a formula is reported as. -/
def Fault.inFormula (source : String) : Fault → TableError
  | unresolved word => .unresolvedReference source word
  | defect d => .malformedFormula source d

end TruthTables
