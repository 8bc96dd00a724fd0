import TruthTables.Parentheses
import TruthTables.Error

/-!
# Formulas

A formula is a text with at least one token and balanced parentheses. Whether its connectives have
their operands shows only when it is evaluated.
-/

namespace TruthTables

structure Formula where
  source : String
  tokens : List Token
  tokens_eq : tokens = tokenize source
  ne_nil : tokens ≠ []
  balanced : Balanced tokens
deriving DecidableEq

namespace Formula

/-- The defect of a list of tokens that is no formula: it is empty, or a parenthesis is closed that
is not open, or one is left open. -/
def defectOf (ts : List Token) : Defect :=
  if ts = [] then .empty
  else match openAfter? 0 ts with
    | none => .unexpected .closeParen
    | some _ => .unclosedParen

/-- The formula with this text. -/
def parse (source : String) : Except TableError Formula :=
  if h : tokenize source ≠ [] ∧ Balanced (tokenize source) then
    .ok ⟨source, tokenize source, rfl, h.1, h.2⟩
  else .error (.malformedFormula source (defectOf (tokenize source)))

/-- A formula without a logical token stands for a variable. -/
def isAtomic (f : Formula) : Bool :=
  !f.tokens.any Token.isLogical

theorem source_of_parse {source : String} {f : Formula} (h : parse source = .ok f) :
    f.source = source := by
  unfold parse at h
  split at h
  · simp only [Except.ok.injEq] at h
    rw [← h]
  · simp at h

end Formula

end TruthTables
