import TruthTables.Evaluation
import TruthTables.Proofs.Parentheses

/-!
# Shapes of balanced lists

What `Shape.ofTokens` finds in a balanced list, said without the search, and the induction on
lists of tokens that follows it.
-/

namespace TruthTables

variable {op : Connective} {ts left right inner : List Token}

/-! ### Levels of connectives -/

namespace Connective

lemma level_injective {o op : Connective} (h : o.level = op.level) : o = op := by
  cases o <;> cases op <;> first | rfl | exact absurd h (by decide)

lemma isUnary_iff : op.isUnary = true ↔ op = .not := by
  cases op <;> decide

lemma precedence_sorted : precedence.Pairwise fun o op => o.level < op.level := by
  decide

end Connective

/-! ### The loosest connective -/

lemma mem_outer_of_splitAt? {parts : List Token × List Token}
    (h : splitAt? op 0 ts = some parts) : op ∈ outer 0 ts := by
  by_contra hop
  rw [splitAt?_eq_none_iff.2 hop] at h
  simp at h

/-- Of connectives that come with the loosest first, the cut is made at the first one that stands
outside of all parentheses. -/
lemma loosest?_eq_some_iff {ops : List Connective}
    (hsorted : ops.Pairwise fun o op => o.level < op.level) :
    loosest? ts ops = some (op, left, right) ↔
      op ∈ ops ∧ (∀ o ∈ ops, o ∈ outer 0 ts → op.level ≤ o.level) ∧
        splitAt? op 0 ts = some (left, right) := by
  induction ops with
  | nil => simp [loosest?]
  | cons o ops ih =>
    obtain ⟨hlt, hsorted⟩ := List.pairwise_cons.1 hsorted
    rw [loosest?]
    cases hcut : splitAt? o 0 ts with
    | some parts =>
      have houter : o ∈ outer 0 ts := mem_outer_of_splitAt? hcut
      constructor
      · -- the first connective that occurs is cut at, and those behind it bind more tightly
        intro h
        obtain ⟨rfl, rfl⟩ := Prod.mk.inj (Option.some.inj h)
        refine ⟨List.mem_cons_self, ?_, hcut⟩
        intro o' ho' _
        rcases List.mem_cons.1 ho' with rfl | ho'
        · exact Nat.le_refl _
        · exact Nat.le_of_lt (hlt o' ho')
      · -- a connective behind the first one that occurs is not the loosest
        rintro ⟨hop, hfirst, hparts⟩
        rcases List.mem_cons.1 hop with rfl | hop
        · rw [hcut] at hparts
          rw [Option.some.inj hparts]
        · exact absurd (hfirst o List.mem_cons_self houter) (Nat.not_le.2 (hlt op hop))
    | none =>
      have houter : o ∉ outer 0 ts := splitAt?_eq_none_iff.1 hcut
      rw [ih hsorted]
      constructor
      · rintro ⟨hop, hfirst, hparts⟩
        refine ⟨List.mem_cons_of_mem _ hop, ?_, hparts⟩
        exact List.forall_mem_cons.2 ⟨fun ho => absurd ho houter, hfirst⟩
      · rintro ⟨hop, hfirst, hparts⟩
        rcases List.mem_cons.1 hop with rfl | hop
        · exact absurd (mem_outer_of_splitAt? hparts) houter
        · exact ⟨hop, (List.forall_mem_cons.1 hfirst).2, hparts⟩

lemma loosest?_eq_none_iff {ops : List Connective} :
    loosest? ts ops = none ↔ ∀ op ∈ ops, op ∉ outer 0 ts := by
  induction ops with
  | nil => simp [loosest?]
  | cons o ops ih =>
    rw [loosest?, List.forall_mem_cons, ← ih]
    cases hcut : splitAt? o 0 ts with
    | some parts => simp [mem_outer_of_splitAt? hcut]
    | none => simp [splitAt?_eq_none_iff.1 hcut]

/-! ### Shapes -/

namespace Shape

lemma ofTokens_of_length (h : 2 ≤ ts.length) :
    ofTokens ts =
      match enclosed? ts with
      | some inner => enclosed inner
      | none =>
        match loosest? ts Connective.precedence with
        | some (op, left, right) => joined op left right
        | none => faulty (.defect (.unjoined ts)) := by
  match ts, h with
  | t :: u :: us, _ => rfl

lemma length_of_ofTokens_ne_faulty (h : ∀ fault, ofTokens ts ≠ faulty fault) :
    2 ≤ ts.length := by
  match ts with
  | [] => exact absurd rfl (h _)
  | [t] => exact absurd rfl (h _)
  | t :: u :: us => simp

theorem ofTokens_eq_enclosed_iff (h : Balanced ts) :
    ofTokens ts = enclosed inner ↔ ts = .openParen :: inner ++ [.closeParen] ∧ Balanced inner := by
  rw [← enclosed?_eq_some_iff_of_balanced h]
  constructor
  · exact enclosed?_of_ofTokens
  · intro henc
    have hlen : 2 ≤ ts.length := by
      rw [(enclosed?_eq_some_iff.1 henc).1]
      simp
    rw [ofTokens_of_length hlen, henc]

/-- A balanced list is joined by the loosest connective outside of all parentheses, at the first
place where it stands. -/
theorem ofTokens_eq_joined_iff (h : Balanced ts) :
    ofTokens ts = joined op left right ↔
      ts = left ++ .connective op :: right ∧ Balanced left ∧ op ∉ outer 0 left ∧
        (∀ o ∈ outer 0 ts, op.level ≤ o.level) ∧ (left ≠ [] ∨ right ≠ []) := by
  have hcut : loosest? ts Connective.precedence = some (op, left, right) ↔
      (∀ o ∈ outer 0 ts, op.level ≤ o.level) ∧ ts = left ++ .connective op :: right ∧
        Balanced left ∧ op ∉ outer 0 left := by
    rw [loosest?_eq_some_iff Connective.precedence_sorted, splitAt?_eq_some_iff h]
    simp only [Connective.mem_precedence, true_and, forall_const]
    rfl
  constructor
  · intro hs
    have hlen : 2 ≤ ts.length := length_of_ofTokens_ne_faulty (by simp [hs])
    have happend := eq_append_of_ofTokens hs
    rw [ofTokens_of_length hlen] at hs
    split at hs
    · -- in parentheses
      simp at hs
    · split at hs
      · rename_i hloosest
        obtain ⟨hop, hl, hr⟩ := joined.inj hs
        rw [hop, hl, hr] at hloosest
        obtain ⟨hfirst, -, hleft, hop⟩ := hcut.1 hloosest
        refine ⟨happend, hleft, hop, hfirst, ?_⟩
        -- a connective alone is a single token, which is not taken apart
        by_contra hnil
        obtain ⟨rfl, rfl⟩ : left = [] ∧ right = [] := by simpa [not_or] using hnil
        simp [happend] at hlen
      · -- not joined by anything
        simp at hs
  · rintro ⟨happend, hleft, hop, hfirst, hne⟩
    have hlen : 2 ≤ ts.length := by
      rcases hne with hne | hne
      all_goals
        have := List.length_pos_iff.2 hne
        simp only [happend, List.length_append, List.length_cons]
        omega
    -- parentheses around all of the tokens would leave no connective outside
    have hnot : enclosed? ts = none := by
      rw [enclosed?_eq_none_iff_of_balanced h]
      rintro ⟨inner, hinner, heq⟩
      have houter : op ∈ outer 0 ts := by
        rw [happend, outer_append_of_balanced hleft]
        simp
      rw [heq, outer_parenthesize hinner] at houter
      simp at houter
    rw [ofTokens_of_length hlen, hnot, hcut.2 ⟨hfirst, happend, hleft, hop⟩]

/-- Several tokens cannot be taken apart if they are neither in parentheses nor joined. -/
theorem ofTokens_eq_faulty_iff {fault : Fault} (h : Balanced ts) (hlen : 2 ≤ ts.length) :
    ofTokens ts = faulty fault ↔
      fault = .defect (.unjoined ts) ∧ ¬ Parenthesized ts ∧ outer 0 ts = [] := by
  have hnone : loosest? ts Connective.precedence = none ↔ outer 0 ts = [] := by
    rw [loosest?_eq_none_iff, List.eq_nil_iff_forall_not_mem]
    simp only [Connective.mem_precedence, forall_const]
  rw [ofTokens_of_length hlen, ← hnone, ← enclosed?_eq_none_iff_of_balanced h]
  cases enclosed? ts with
  | some inner => simp
  | none =>
    cases loosest? ts Connective.precedence with
    | some parts => simp
    | none => simp [eq_comm]

/-- Induction on the way a list of tokens is taken apart. -/
@[elab_as_elim]
theorem induction {motive : List Token → Prop}
    (faulty : ∀ ts fault, ofTokens ts = .faulty fault → motive ts)
    (enclosed : ∀ ts inner, ofTokens ts = .enclosed inner → motive inner → motive ts)
    (joined : ∀ ts op left right, ofTokens ts = .joined op left right →
      motive left → motive right → motive ts)
    (ts : List Token) : motive ts := by
  match hs : ofTokens ts with
  | .faulty fault => exact faulty ts fault hs
  | .enclosed inner =>
    exact enclosed ts inner hs (induction faulty enclosed joined inner)
  | .joined op left right =>
    exact joined ts op left right hs (induction faulty enclosed joined left)
      (induction faulty enclosed joined right)
termination_by ts.length
decreasing_by
  · exact length_lt_of_enclosed hs
  · exact length_left_lt_of_joined hs
  · exact length_right_lt_of_joined hs

end Shape

end TruthTables
