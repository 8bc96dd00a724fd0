import TruthTables.Proofs.Evaluation
import TruthTables.Proofs.Grammar

/-!
# Readings

The tree that evaluation goes through when it takes a list of tokens apart. There is at most one,
and evaluation has a value exactly if there is one, namely the value of that tree. For columns that
cannot be taken for anything else the readings of a balanced list are its derivations in the
grammar, which is why the grammar is unambiguous and evaluation accepts it and nothing more.
-/

namespace TruthTables

variable {IsColumn : List Token → Prop} {ts : List Token} {t t' : Tree}

/-- Taken apart from the outside, `ts` becomes the tree. A column is not taken apart. -/
inductive ReadsAs (IsColumn : List Token → Prop) : List Token → Tree → Prop where
  | column {ts : List Token} (h : IsColumn ts) : ReadsAs IsColumn ts (.column ts)
  | group {ts us : List Token} {inner : Tree} (hc : ¬ IsColumn ts)
    (hs : Shape.ofTokens ts = .enclosed us) (h : ReadsAs IsColumn us inner) :
    ReadsAs IsColumn ts (.group inner)
  | negation {ts us : List Token} {operand : Tree} (hc : ¬ IsColumn ts)
    (hs : Shape.ofTokens ts = .joined .not [] us) (h : ReadsAs IsColumn us operand) :
    ReadsAs IsColumn ts (.negation operand)
  | join {ts ls rs : List Token} {op : Connective} {left right : Tree} (hc : ¬ IsColumn ts)
    (hop : op.isUnary = false) (hs : Shape.ofTokens ts = .joined op ls rs)
    (hl : ReadsAs IsColumn ls left) (hr : ReadsAs IsColumn rs right) :
    ReadsAs IsColumn ts (.join op left right)

namespace ReadsAs

/-! ### One rule for each shape -/

lemma column_iff (hc : IsColumn ts) : ReadsAs IsColumn ts t ↔ t = .column ts := by
  constructor
  · intro h
    cases h <;> first | rfl | contradiction
  · rintro rfl
    exact .column hc

lemma not_of_faulty {fault : Fault} (hc : ¬ IsColumn ts) (hs : Shape.ofTokens ts = .faulty fault) :
    ¬ ReadsAs IsColumn ts t := by
  intro h
  cases h <;> simp_all

lemma group_iff {us : List Token} (hc : ¬ IsColumn ts) (hs : Shape.ofTokens ts = .enclosed us) :
    ReadsAs IsColumn ts t ↔ ∃ inner, ReadsAs IsColumn us inner ∧ t = .group inner := by
  constructor
  · intro h
    cases h with
    | column hc' => contradiction
    | group _ hs' h =>
      rw [hs, Shape.enclosed.injEq] at hs'
      exact ⟨_, hs' ▸ h, rfl⟩
    | negation _ hs' | join _ _ hs' => simp [hs] at hs'
  · rintro ⟨inner, h, rfl⟩
    exact .group hc hs h

lemma negation_iff {ls rs : List Token} (hc : ¬ IsColumn ts)
    (hs : Shape.ofTokens ts = .joined .not ls rs) :
    ReadsAs IsColumn ts t ↔
      ls = [] ∧ ∃ operand, ReadsAs IsColumn rs operand ∧ t = .negation operand := by
  constructor
  · intro h
    cases h with
    | column hc' => contradiction
    | group _ hs' => simp [hs] at hs'
    | negation _ hs' h =>
      rw [hs] at hs'
      obtain ⟨-, hls, hrs⟩ := Shape.joined.inj hs'
      exact ⟨hls, _, hrs ▸ h, rfl⟩
    | join _ hop hs' =>
      rw [hs] at hs'
      obtain ⟨rfl, -, -⟩ := Shape.joined.inj hs'
      simp [Connective.isUnary] at hop
  · rintro ⟨rfl, operand, h, rfl⟩
    exact .negation hc hs h

lemma join_iff {op : Connective} {ls rs : List Token} (hc : ¬ IsColumn ts)
    (hop : op.isUnary = false) (hs : Shape.ofTokens ts = .joined op ls rs) :
    ReadsAs IsColumn ts t ↔
      ∃ left right, ReadsAs IsColumn ls left ∧ ReadsAs IsColumn rs right ∧
        t = .join op left right := by
  constructor
  · intro h
    cases h with
    | column hc' => contradiction
    | group _ hs' => simp [hs] at hs'
    | negation _ hs' =>
      rw [hs] at hs'
      obtain ⟨rfl, -, -⟩ := Shape.joined.inj hs'
      simp [Connective.isUnary] at hop
    | join _ _ hs' hl hr =>
      rw [hs] at hs'
      obtain ⟨rfl, rfl, rfl⟩ := Shape.joined.inj hs'
      exact ⟨_, _, hl, hr, rfl⟩
  · rintro ⟨left, right, hl, hr, rfl⟩
    exact .join hc hop hs hl hr

/-- A list of tokens is taken apart in one way at most. -/
theorem unique (h : ReadsAs IsColumn ts t) (h' : ReadsAs IsColumn ts t') : t = t' := by
  induction h generalizing t' with
  | column hc => exact ((column_iff hc).1 h').symm
  | group hc hs h ih =>
    obtain ⟨inner, hinner, rfl⟩ := (group_iff hc hs).1 h'
    rw [ih hinner]
  | negation hc hs h ih =>
    obtain ⟨-, operand, hoperand, rfl⟩ := (negation_iff hc hs).1 h'
    rw [ih hoperand]
  | join hc hop hs hl hr ihl ihr =>
    obtain ⟨left, right, hleft, hright, rfl⟩ := (join_iff hc hop hs).1 h'
    rw [ihl hleft, ihr hright]

/-! ### Readings and derivations -/

variable (hC : PlainColumns IsColumn)

include hC

lemma derives (h : ReadsAs IsColumn ts t) (hts : Balanced ts) : Derives IsColumn 0 ts t := by
  induction h with
  | column h => exact (Derives.column h).loosen (Nat.zero_le _)
  | group hc hs h ih =>
    obtain ⟨rfl, hinner⟩ := (Shape.ofTokens_eq_enclosed_iff hts).1 hs
    exact (Derives.group (ih hinner)).loosen (Nat.zero_le _)
  | @negation _ us _ hc hs h ih =>
    obtain ⟨rfl, -, -, hloosest, -⟩ := (Shape.ofTokens_eq_joined_iff hts).1 hs
    have hus : Balanced us := hts.of_connective_cons
    have htight : ∀ o ∈ outer 0 us, Connective.not.level ≤ o.level := by
      intro o ho
      apply hloosest
      rw [List.nil_append, outer_connective_zero]
      exact List.mem_cons_of_mem _ ho
    have hoperand := (ih hus).tighten hC (Nat.zero_le _) Connective.not.level_lt_primary.le htight
    exact (Derives.negation hoperand).loosen (Nat.zero_le _)
  | @join _ ls rs op _ _ hc hop hs hl hr ihl ihr =>
    obtain ⟨rfl, hls, hnot, hloosest, -⟩ := (Shape.ofTokens_eq_joined_iff hts).1 hs
    have hrs : Balanced rs := (hts.right_of_append hls).of_connective_cons
    rw [outer_append_of_balanced hls, outer_connective_zero] at hloosest
    -- a connective of the same level on the left would be `op` in front of the cut
    have hltight : ∀ o ∈ outer 0 ls, op.level + 1 ≤ o.level := by
      intro o ho
      rcases (hloosest o (List.mem_append_left _ ho)).eq_or_lt with heq | hlt
      · exact absurd (Connective.level_injective heq ▸ ho) hnot
      · exact hlt
    have hrtight : ∀ o ∈ outer 0 rs, op.level ≤ o.level := by
      intro o ho
      apply hloosest
      exact List.mem_append_right _ (List.mem_cons_of_mem _ ho)
    have hleft := (ihl hls).tighten hC (Nat.zero_le _) op.level_lt_primary hltight
    have hright := (ihr hrs).tighten hC (Nat.zero_le _) op.level_lt_primary.le hrtight
    exact (Derives.join hop hleft hright).loosen (Nat.zero_le _)

end ReadsAs

lemma Derives.readsAs (hC : PlainColumns IsColumn) {level : Nat} (h : Derives IsColumn level ts t) :
    ReadsAs IsColumn ts t := by
  induction h with
  | column h => exact .column h
  | @group us inner h ih =>
    have hus : Balanced us := h.balanced hC
    refine .group (fun hc => hC.not_parenthesized hc ⟨us, hus, rfl⟩) ?_ ih
    exact (Shape.ofTokens_eq_enclosed_iff hus.parenthesize).2 ⟨rfl, hus⟩
  | @negation us operand h ih =>
    refine .negation (fun hc => hC.connective_not_mem .not hc List.mem_cons_self) ?_ ih
    refine (Shape.ofTokens_eq_joined_iff ((h.balanced hC).connective_cons _)).2 ?_
    refine ⟨rfl, rfl, by simp, ?_, Or.inr (h.ne_nil hC)⟩
    exact (Derives.negation h).level_le_of_mem_outer hC
  | @join op ls rs left right hop hl hr ihl ihr =>
    have hls : Balanced ls := hl.balanced hC
    refine .join (fun hc => hC.connective_not_mem op hc (by simp)) hop ?_ ihl ihr
    refine (Shape.ofTokens_eq_joined_iff (hls.append ((hr.balanced hC).connective_cons _))).2 ?_
    refine ⟨rfl, hls, ?_, ?_, Or.inl (hl.ne_nil hC)⟩
    · -- on the left all connectives bind more tightly
      intro hmem
      exact absurd (hl.level_le_of_mem_outer hC op hmem) (Nat.not_succ_le_self _)
    · exact (Derives.join hop hl hr).level_le_of_mem_outer hC
  | tighter hlevel h ih => exact ih

/-- The grammar is unambiguous. -/
theorem Derives.unique (hC : PlainColumns IsColumn) {level level' : Nat}
    (h : Derives IsColumn level ts t) (h' : Derives IsColumn level' ts t') : t = t' :=
  (h.readsAs hC).unique (h'.readsAs hC)

/-! ### Readings and evaluation -/

/-- The lists of tokens that need not be taken apart. -/
def Known (look : List Token → Option Bool) (ts : List Token) : Prop :=
  (look ts).isSome

/-- The values that are looked up. -/
def valuation (look : List Token → Option Bool) (ts : List Token) : Bool :=
  (look ts).getD false

section

variable {look : List Token → Option Bool} {value : Bool}

lemma known_iff : Known look ts ↔ ∃ value, look ts = some value :=
  Option.isSome_iff_exists

lemma not_known_iff : ¬ Known look ts ↔ look ts = none := by
  simp [Known]

lemma valuation_of_look (h : look ts = some value) : valuation look ts = value := by
  rw [valuation, h, Option.getD_some]

lemma result_evaluate_eq_ok_iff_of_known (hc : Known look ts) :
    (evaluate look ts).result = .ok value ↔
      ∃ t, ReadsAs (Known look) ts t ∧ t.value (valuation look) = value := by
  obtain ⟨value', h⟩ := known_iff.1 hc
  simp [result_evaluate_of_look h, ReadsAs.column_iff hc, Tree.value, valuation_of_look h]

/-- Evaluation has a value exactly if there is a reading, and then it has that of the reading. -/
theorem result_evaluate_eq_ok_iff :
    (evaluate look ts).result = .ok value ↔
      ∃ t, ReadsAs (Known look) ts t ∧ t.value (valuation look) = value := by
  induction ts using Shape.induction generalizing value with
  | faulty ts fault hs =>
    by_cases hc : Known look ts
    · exact result_evaluate_eq_ok_iff_of_known hc
    · rw [result_evaluate_of_faulty (not_known_iff.1 hc) hs]
      simp [ReadsAs.not_of_faulty hc hs]
  | enclosed ts inner hs ih =>
    by_cases hc : Known look ts
    · exact result_evaluate_eq_ok_iff_of_known hc
    · rw [result_evaluate_of_enclosed (not_known_iff.1 hc) hs, @ih value]
      simp only [ReadsAs.group_iff hc hs]
      constructor
      · rintro ⟨t, ht, hvalue⟩
        exact ⟨.group t, ⟨t, ht, rfl⟩, hvalue⟩
      · rintro ⟨-, ⟨t, ht, rfl⟩, hvalue⟩
        exact ⟨t, ht, hvalue⟩
  | joined ts op left right hs ihl ihr =>
    by_cases hc : Known look ts
    · exact result_evaluate_eq_ok_iff_of_known hc
    · rw [result_evaluate_of_joined (not_known_iff.1 hc) hs]
      cases hop : op.isUnary with
      | true =>
        obtain rfl := Connective.isUnary_iff.1 hop
        simp only [joinResults_not_eq_ok_iff, ReadsAs.negation_iff hc hs, ihr]
        constructor
        · rintro ⟨hleft, -, ⟨t, ht, rfl⟩, hvalue⟩
          exact ⟨.negation t, ⟨hleft, t, ht, rfl⟩, hvalue⟩
        · rintro ⟨-, ⟨hleft, t, ht, rfl⟩, hvalue⟩
          exact ⟨hleft, _, ⟨t, ht, rfl⟩, hvalue⟩
      | false =>
        simp only [joinResults_eq_ok_iff hop, ReadsAs.join_iff hc hop hs, ihl, ihr]
        constructor
        · rintro ⟨-, -, ⟨l, hl, rfl⟩, ⟨r, hr, rfl⟩, hvalue⟩
          exact ⟨.join op l r, ⟨l, r, hl, hr, rfl⟩, hvalue⟩
        · rintro ⟨-, ⟨l, r, hl, hr, rfl⟩, hvalue⟩
          exact ⟨_, _, ⟨l, hl, rfl⟩, ⟨r, hr, rfl⟩, hvalue⟩

end

end TruthTables
