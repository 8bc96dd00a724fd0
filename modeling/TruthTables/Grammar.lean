import TruthTables.Token

/-!
# The grammar of formulas

Formulas as trees, and which lists of tokens they are written as. A tree is derived at a level of
binding strength: connectives of a level take a tighter tree on their left and a tree of their own
level on their right, so binary connectives associate to the right and negations can be repeated.
At the tightest level there are columns, written as the lists of tokens that `IsColumn` holds of,
and trees in parentheses.
-/

namespace TruthTables

inductive Tree where
  | column (ts : List Token)
  | group (inner : Tree)
  | negation (operand : Tree)
  | join (op : Connective) (left right : Tree)
deriving DecidableEq, Repr

namespace Tree

/-- The value of a tree, given those of the columns. -/
def value (columns : List Token → Bool) : Tree → Bool
  | column ts => columns ts
  | group inner => inner.value columns
  | negation operand => !operand.value columns
  | join op left right => op.apply (left.value columns) (right.value columns)

/-- The level of columns and parentheses, above all connectives. -/
def primary : Nat := Connective.precedence.length

end Tree

/-- The tree is written as the list of tokens, at a level. -/
inductive Derives (IsColumn : List Token → Prop) : Nat → List Token → Tree → Prop where
  | column {ts : List Token} (h : IsColumn ts) : Derives IsColumn Tree.primary ts (.column ts)
  | group {ts : List Token} {inner : Tree} (h : Derives IsColumn 0 ts inner) :
    Derives IsColumn Tree.primary (.openParen :: ts ++ [.closeParen]) (.group inner)
  | negation {ts : List Token} {operand : Tree}
    (h : Derives IsColumn Connective.not.level ts operand) :
    Derives IsColumn Connective.not.level (.connective .not :: ts) (.negation operand)
  | join {op : Connective} {ls rs : List Token} {left right : Tree} (hop : op.isUnary = false)
    (hl : Derives IsColumn (op.level + 1) ls left) (hr : Derives IsColumn op.level rs right) :
    Derives IsColumn op.level (ls ++ .connective op :: rs) (.join op left right)
  | tighter {level : Nat} {ts : List Token} {t : Tree} (hlevel : level < Tree.primary)
    (h : Derives IsColumn (level + 1) ts t) : Derives IsColumn level ts t

end TruthTables
