import Mathlib.Data.Nat.Basic
import Mathlib.Order.Basic
import TruthTables.Grammar
import TruthTables.Proofs.Shape

/-!
# Levels of derivations

A derivation at one level is one at every looser level. It is one at a tighter level as far as no
connective between the two levels stands outside of all parentheses. Both need columns that are
written without connectives.
-/

namespace TruthTables

lemma Connective.level_lt_primary (op : Connective) : op.level < Tree.primary := by
  cases op <;> decide

namespace Tree

/-- The columns of a tree from left to right. -/
def columns : Tree → List (List Token)
  | column ts => [ts]
  | group inner => inner.columns
  | negation operand => operand.columns
  | join _ left right => left.columns ++ right.columns

/-- The value of a tree depends on the values of its columns alone. -/
lemma value_congr {t : Tree} {values values' : List Token → Bool}
    (h : ∀ ts ∈ t.columns, values ts = values' ts) : t.value values = t.value values' := by
  induction t with
  | column ts => exact h ts (List.mem_singleton_self ts)
  | group inner ih => exact ih h
  | negation operand ih => rw [value, value, ih h]
  | join op left right ihl ihr =>
    rw [value, value, ihl fun ts hts => h ts (List.mem_append_left _ hts),
      ihr fun ts hts => h ts (List.mem_append_right _ hts)]

end Tree

/-- Columns that a formula cannot take for anything else: they have tokens, their parentheses have
partners, they hold no connective, and they are not one pair of parentheses around the rest. -/
structure PlainColumns (IsColumn : List Token → Prop) : Prop where
  ne_nil {ts : List Token} : IsColumn ts → ts ≠ []
  balanced {ts : List Token} : IsColumn ts → Balanced ts
  connective_not_mem {ts : List Token} (op : Connective) : IsColumn ts → .connective op ∉ ts
  not_parenthesized {ts : List Token} : IsColumn ts → ¬ Parenthesized ts

lemma PlainColumns.mono {IsColumn IsColumn' : List Token → Prop} (hC : PlainColumns IsColumn)
    (h : ∀ ts, IsColumn' ts → IsColumn ts) : PlainColumns IsColumn' where
  ne_nil hts := hC.ne_nil (h _ hts)
  balanced hts := hC.balanced (h _ hts)
  connective_not_mem op hts := hC.connective_not_mem op (h _ hts)
  not_parenthesized hts := hC.not_parenthesized (h _ hts)

namespace Derives

variable {IsColumn IsColumn' : List Token → Prop} {level level' : Nat} {ts : List Token} {t : Tree}

/-! ### Columns of a derivation -/

lemma isColumn_of_mem (h : Derives IsColumn level ts t) : ∀ us ∈ t.columns, IsColumn us := by
  induction h with
  | column h =>
    intro us hus
    rwa [List.mem_singleton.1 hus]
  | group h ih => exact ih
  | negation h ih => exact ih
  | join hop hl hr ihl ihr =>
    intro us hus
    rcases List.mem_append.1 hus with hus | hus
    · exact ihl us hus
    · exact ihr us hus
  | tighter hlevel h ih => exact ih

lemma of_columns (h : Derives IsColumn level ts t) (hcols : ∀ us ∈ t.columns, IsColumn' us) :
    Derives IsColumn' level ts t := by
  induction h with
  | column h => exact .column (hcols _ (List.mem_singleton_self _))
  | group h ih => exact .group (ih hcols)
  | negation h ih => exact .negation (ih hcols)
  | join hop hl hr ihl ihr =>
    exact .join hop (ihl fun us hus => hcols us (List.mem_append_left _ hus))
      (ihr fun us hus => hcols us (List.mem_append_right _ hus))
  | tighter hlevel h ih => exact .tighter hlevel (ih hcols)

lemma level_le (h : Derives IsColumn level ts t) : level ≤ Tree.primary := by
  induction h with
  | column | group => exact le_rfl
  | negation => decide
  | @join op => exact op.level_lt_primary.le
  | tighter hlevel h ih => exact hlevel.le

lemma loosen (h : Derives IsColumn level ts t) (hle : level' ≤ level) :
    Derives IsColumn level' ts t := by
  induction level, hle using Nat.le_induction with
  | base => exact h
  | succ level hle ih => exact ih (.tighter h.level_le h)

variable (hC : PlainColumns IsColumn)

include hC

lemma ne_nil (h : Derives IsColumn level ts t) : ts ≠ [] := by
  induction h with
  | column h => exact hC.ne_nil h
  | group | negation | join => simp
  | tighter hlevel h ih => exact ih

lemma balanced (h : Derives IsColumn level ts t) : Balanced ts := by
  induction h with
  | column h => exact hC.balanced h
  | group h ih => exact ih.parenthesize
  | negation h ih => exact ih.connective_cons _
  | join hop hl hr ihl ihr => exact ihl.append (ihr.connective_cons _)
  | tighter hlevel h ih => exact ih

lemma outer_eq_nil_of_isColumn (h : IsColumn ts) : outer 0 ts = [] := by
  rw [List.eq_nil_iff_forall_not_mem]
  intro op hop
  exact hC.connective_not_mem op h (mem_of_mem_outer hop)

/-- Outside of all parentheses there are only connectives of the level or tighter ones. -/
lemma level_le_of_mem_outer (h : Derives IsColumn level ts t) :
    ∀ op ∈ outer 0 ts, level ≤ op.level := by
  induction h with
  | column h => simp [outer_eq_nil_of_isColumn hC h]
  | group h ih =>
    rw [outer_parenthesize (h.balanced hC)]
    simp
  | negation h ih =>
    rw [outer_connective_zero]
    exact List.forall_mem_cons.2 ⟨le_rfl, ih⟩
  | join hop hl hr ihl ihr =>
    rw [outer_append_of_balanced (hl.balanced hC), outer_connective_zero]
    intro o ho
    rcases List.mem_append.1 ho with ho | ho
    · -- on the left all connectives bind more tightly
      exact (Nat.lt_of_succ_le (ihl o ho)).le
    · -- on the right they bind as tightly at least
      rcases List.mem_cons.1 ho with rfl | ho
      · exact le_rfl
      · exact ihr o ho
  | tighter hlevel h ih =>
    intro op hop
    exact (Nat.lt_of_succ_le (ih op hop)).le

lemma tighten (h : Derives IsColumn level ts t) (hle : level ≤ level')
    (hprimary : level' ≤ Tree.primary) (houter : ∀ op ∈ outer 0 ts, level' ≤ op.level) :
    Derives IsColumn level' ts t := by
  induction h with
  | column h =>
    rw [hprimary.antisymm hle]
    exact .column h
  | group h ih =>
    rw [hprimary.antisymm hle]
    exact .group h
  | negation h ih =>
    have hnot := houter .not (by simp)
    rw [hnot.antisymm hle]
    exact .negation h
  | @join op _ _ _ _ hop hl hr ihl ihr =>
    have hjoin := houter op (by simp [outer_append_of_balanced (hl.balanced hC)])
    rw [hjoin.antisymm hle]
    exact .join hop hl hr
  | tighter hlevel h ih =>
    rcases hle.eq_or_lt with rfl | hlt
    · exact .tighter hlevel h
    · exact ih hlt houter

end Derives

end TruthTables
