/-!
# Connectives

The six logical connectives: how they are spelled, how tightly they bind, and what they mean.
-/

namespace TruthTables

inductive Connective where
  | iff
  | implies
  | xor
  | or
  | and
  | not
deriving DecidableEq, Repr

namespace Connective

/-- The character that starts every canonical spelling. -/
def escapeMark : Char := '\\'

/-- The spelling that is written; in LaTeX it is the sign of the connective. -/
def canonical : Connective → String
  | iff => "\\iff"
  | implies => "\\Rightarrow"
  | xor => "\\oplus"
  | or => "\\lor"
  | and => "\\land"
  | not => "\\lnot"

/-- The other spellings that are read. The only reserved word is `not`. -/
def aliases : Connective → List String
  | iff => ["<=>"]
  | implies => ["=>", "->"]
  | xor => ["^"]
  | or => ["|", "||"]
  | and => ["&", "&&"]
  | not => ["!", "-", "~", "not"]

def spellings (op : Connective) : List String :=
  op.canonical :: op.aliases

/-- All connectives, from the loosest to the tightest. -/
def precedence : List Connective :=
  [iff, implies, xor, or, and, not]

theorem mem_precedence (op : Connective) : op ∈ precedence := by
  cases op <;> decide

/-- The connective with this spelling. -/
def ofSpelling? (word : String) : Option Connective :=
  precedence.find? fun op => op.spellings.contains word

theorem ofSpelling?_of_mem {op : Connective} :
    ∀ word ∈ op.spellings, ofSpelling? word = some op := by
  cases op <;> decide

/-- No two connectives share a spelling. -/
theorem ofSpelling?_eq_some_iff {word : String} {op : Connective} :
    ofSpelling? word = some op ↔ word ∈ op.spellings := by
  refine ⟨fun h => ?_, ofSpelling?_of_mem word⟩
  have found := List.find?_some h
  simpa using found

/-- The position among the connectives, 0 for the loosest. -/
def level (op : Connective) : Nat :=
  precedence.idxOf op

def isUnary : Connective → Bool
  | not => true
  | _ => false

/-- The truth function. Negation ignores its left argument. -/
def apply : Connective → Bool → Bool → Bool
  | iff, left, right => left == right
  | implies, left, right => !left || right
  | xor, left, right => left != right
  | or, left, right => left || right
  | and, left, right => left && right
  | not, _, right => !right

end Connective

end TruthTables
