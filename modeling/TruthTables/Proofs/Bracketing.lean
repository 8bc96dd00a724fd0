import TruthTables.Proofs.Normalize
import TruthTables.Proofs.Parentheses

/-!
# Which texts are formulas

Whether a text is a formula, and what is wrong with it if it is none, can be seen from its
characters: where it is not blank, only the parentheses count, and they are counted from left to
right.
-/

namespace TruthTables

open Text

variable {s : List Char} {c : Char} {source : String} {depth rest : Nat}

/-! ### Counting parentheses -/

/-- From left to right, there are never more closing parentheses than opening ones. -/
def NeverOvercloses (s : List Char) : Prop :=
  ∀ p, p <+: s → p.count ')' ≤ p.count '('

/-- The parentheses are a balanced word. -/
structure IsBalancedText (s : List Char) : Prop where
  neverOvercloses : NeverOvercloses s
  count_eq : s.count '(' = s.count ')'

/-- The token of a parenthesis. -/
def parenOf? (c : Char) : Option Token :=
  if c = '(' then some .openParen else if c = ')' then some .closeParen else none

lemma parenOf?_eq_none (hc : isParen c = false) : parenOf? c = none := by
  simp only [isParen, Bool.or_eq_false_iff, decide_eq_false_iff_not] at hc
  rw [parenOf?, if_neg hc.1, if_neg hc.2]

lemma parenOf?_eq_some (hc : isParen c) : parenOf? c = some (Token.ofWord (String.ofList [c])) := by
  simp only [isParen, Bool.or_eq_true, decide_eq_true_eq] at hc
  rcases hc with rfl | rfl <;> decide

lemma forall_prefix_cons_iff {P : List Char → Prop} :
    (∀ p, p <+: c :: s → P p) ↔ P [] ∧ ∀ p, p <+: s → P (c :: p) := by
  simp only [List.prefix_cons_iff]
  constructor
  · intro h
    exact ⟨h [] (Or.inl rfl), fun p hp => h _ (Or.inr ⟨p, rfl, hp⟩)⟩
  · rintro ⟨hnil, hcons⟩ p (rfl | ⟨p, rfl, hp⟩)
    · exact hnil
    · exact hcons p hp

/-- The counter gets through the parentheses of a text exactly if there are enough open ones all the
way. -/
theorem openAfter?_filterMap_eq_some_iff :
    openAfter? depth (s.filterMap parenOf?) = some rest ↔
      (∀ p, p <+: s → p.count ')' ≤ depth + p.count '(') ∧
        depth + s.count '(' = rest + s.count ')' := by
  induction s generalizing depth with
  | nil => simp
  | cons c s ih =>
    rw [forall_prefix_cons_iff]
    cases hc : isParen c with
    | false =>
      rw [List.filterMap_cons_none (parenOf?_eq_none hc), ih]
      simp only [isParen, Bool.or_eq_false_iff, decide_eq_false_iff_not] at hc
      simp [hc]
    | true =>
      rw [List.filterMap_cons_some (parenOf?_eq_some hc)]
      simp only [isParen, Bool.or_eq_true, decide_eq_true_eq] at hc
      rcases hc with rfl | rfl
      · show openAfter? depth (.openParen :: _) = _ ↔ _
        rw [openAfter?_openParen, ih]
        simp [Nat.add_right_comm, Nat.add_assoc]
      · show openAfter? depth (.closeParen :: _) = _ ↔ _
        cases depth with
        | zero =>
          rw [openAfter?_closeParen_zero]
          constructor
          · intro h
            cases h
          · rintro ⟨⟨-, hprefix⟩, -⟩
            simpa using hprefix [] List.nil_prefix
        | succ depth =>
          rw [openAfter?_closeParen_succ, ih]
          simp [Nat.add_right_comm _ 1, ← Nat.add_assoc]

/-! ### The parentheses of a text -/

lemma filterMap_takeWhile_isWordChar (s : List Char) :
    (s.takeWhile isWordChar).filterMap parenOf? = [] := by
  refine List.filterMap_eq_nil_iff.2 fun c hc => parenOf?_eq_none ?_
  exact (isWordChar_iff.1 (List.mem_takeWhile_imp hc)).2

lemma openAfter?_ofWord {word : String} (h : IsWord word) (depth : Nat) (ts : List Token) :
    openAfter? depth (Token.ofWord word :: ts) = openAfter? depth ts := by
  rw [ofWord_of_isWord h]
  cases Connective.ofSpelling? word <;> simp

/-- The counter comes to the same on the tokens of a text as on its parentheses. -/
theorem openAfter?_tokenize (depth : Nat) (source : String) :
    openAfter? depth (tokenize source) = openAfter? depth (source.toList.filterMap parenOf?) := by
  rw [tokenize]
  generalize source.toList = s
  induction s using scan_induction generalizing depth with
  | nil => simp
  | blank c s hc ih =>
    rw [words_spaceParens_of_isBlank hc, ih,
      List.filterMap_cons_none (parenOf?_eq_none (not_isParen_of_isBlank hc))]
  | paren c s hc ih =>
    rw [words_spaceParens_of_isParen hc, List.filterMap_cons_some (parenOf?_eq_some hc),
      List.map_cons, openAfter?, openAfter?]
    simp only [ih]
  | word c s hc ih =>
    have hparen : isParen c = false := (isWordChar_iff.1 hc).2
    rw [words_spaceParens_of_isWordChar hc, List.map_cons,
      openAfter?_ofWord (isWord_cons_takeWhile hc s), ih,
      List.filterMap_cons_none (parenOf?_eq_none hparen)]
    conv_rhs => rw [← List.takeWhile_append_dropWhile (p := isWordChar) (l := s)]
    rw [List.filterMap_append, filterMap_takeWhile_isWordChar, List.nil_append]

lemma balanced_tokenize_iff : Balanced (tokenize source) ↔ IsBalancedText source.toList := by
  rw [Balanced, openAfter?_tokenize, openAfter?_filterMap_eq_some_iff]
  simp only [Nat.zero_add]
  exact ⟨fun h => ⟨h.1, h.2⟩, fun h => ⟨h.1, h.2⟩⟩

lemma openAfter?_tokenize_eq_none_iff :
    openAfter? 0 (tokenize source) = none ↔ ¬ NeverOvercloses source.toList := by
  rw [openAfter?_tokenize]
  constructor
  · -- otherwise the number of those that stay open would be known
    intro hnone hnever
    have hle := hnever _ (List.prefix_rfl)
    have hsome : openAfter? 0 (source.toList.filterMap parenOf?) =
        some (source.toList.count '(' - source.toList.count ')') := by
      rw [openAfter?_filterMap_eq_some_iff]
      simp only [Nat.zero_add]
      exact ⟨hnever, (Nat.sub_add_cancel hle).symm⟩
    rw [hnone] at hsome
    cases hsome
  · intro hover
    rw [Option.eq_none_iff_forall_ne_some]
    intro rest hsome
    rw [openAfter?_filterMap_eq_some_iff] at hsome
    simp only [Nat.zero_add] at hsome
    exact hover hsome.1

/-- Blank characters are no parentheses. -/
lemma isBalancedText_of_allBlank (h : AllBlank s) : IsBalancedText s := by
  have hcount : ∀ p, p ⊆ s → ∀ c, isParen c → p.count c = 0 := by
    intro p hp c hc
    rw [List.count_eq_zero]
    intro hmem
    rw [not_isParen_of_isBlank (h c (hp hmem))] at hc
    cases hc
  constructor
  · intro p hp
    rw [hcount p hp.subset ')' rfl]
    exact Nat.zero_le _
  · rw [hcount s (List.Subset.refl s) '(' rfl, hcount s (List.Subset.refl s) ')' rfl]

/-! ### Formulas -/

namespace Formula

/-- The text is no formula, and this is the reason. -/
def FailsFor (source reason : String) : Prop :=
  ∃ d : Defect, parse source = .error (.malformedFormula source d) ∧ d.reason = reason

lemma parse_of_balanced (hne : ¬ AllBlank source.toList) (h : IsBalancedText source.toList) :
    ∃ f, parse source = .ok f := by
  rw [← tokenize_eq_nil_iff] at hne
  exact ⟨_, dif_pos ⟨hne, balanced_tokenize_iff.2 h⟩⟩

lemma parse_of_defect (h : AllBlank source.toList ∨ ¬ IsBalancedText source.toList) :
    parse source = .error (.malformedFormula source (defectOf (tokenize source))) := by
  rw [← tokenize_eq_nil_iff, ← balanced_tokenize_iff] at h
  exact dif_neg (by tauto)

lemma defectOf_of_allBlank (h : AllBlank source.toList) : defectOf (tokenize source) = .empty := by
  rw [defectOf, if_pos (tokenize_eq_nil_iff.2 h)]

lemma defectOf_of_not_neverOvercloses (h : ¬ NeverOvercloses source.toList) :
    defectOf (tokenize source) = .unexpected .closeParen := by
  have hne : tokenize source ≠ [] := by
    rw [ne_eq, tokenize_eq_nil_iff]
    exact fun hblank => h (isBalancedText_of_allBlank hblank).neverOvercloses
  rw [defectOf, if_neg hne, openAfter?_tokenize_eq_none_iff.2 h]

lemma defectOf_of_neverOvercloses (hne : ¬ AllBlank source.toList)
    (h : NeverOvercloses source.toList) : defectOf (tokenize source) = .unclosedParen := by
  have hsome : openAfter? 0 (tokenize source) ≠ none := by
    rw [ne_eq, openAfter?_tokenize_eq_none_iff, not_not]
    exact h
  obtain ⟨rest, hrest⟩ := Option.ne_none_iff_exists'.1 hsome
  rw [defectOf, if_neg (mt tokenize_eq_nil_iff.1 hne), hrest]

lemma failsFor_iff {d : Defect} {reason : String}
    (h : parse source = .error (.malformedFormula source d)) :
    FailsFor source reason ↔ d.reason = reason := by
  simp [FailsFor, h]

lemma not_failsFor_empty (h : ¬ AllBlank source.toList) : ¬ FailsFor source "empty formula" := by
  rintro ⟨d, hparse, hreason⟩
  by_cases hbalanced : IsBalancedText source.toList
  · obtain ⟨f, hf⟩ := parse_of_balanced h hbalanced
    rw [hf] at hparse
    cases hparse
  · rw [parse_of_defect (Or.inr hbalanced)] at hparse
    obtain ⟨-, rfl⟩ := TableError.malformedFormula.inj (Except.error.inj hparse)
    by_cases hnever : NeverOvercloses source.toList
    · rw [defectOf_of_neverOvercloses h hnever] at hreason
      exact absurd hreason (by decide)
    · rw [defectOf_of_not_neverOvercloses hnever] at hreason
      exact absurd hreason (by decide)

/-- Whether a text is a formula depends on whether it is blank and on its parentheses, as they stand
among its characters. If it is none, it is refused for one of three reasons. -/
theorem parse_decided_by_characters (source : String) :
    ((∃ f, parse source = .ok f) ↔
      (∃ c ∈ source.toList, isBlank c = false) ∧ IsBalancedText source.toList) ∧
    (FailsFor source "empty formula" ↔ AllBlank source.toList) ∧
    (FailsFor source "unexpected ')'" ↔
      ∃ p, p <+: source.toList ∧ p.count '(' < p.count ')') ∧
    (FailsFor source "unclosed '('" ↔
      NeverOvercloses source.toList ∧ source.toList.count ')' < source.toList.count '(') := by
  have hvisible : (∃ c ∈ source.toList, isBlank c = false) ↔ ¬ AllBlank source.toList := by
    simp [AllBlank]
  have hover : (∃ p, p <+: source.toList ∧ p.count '(' < p.count ')') ↔
      ¬ NeverOvercloses source.toList := by
    simp [NeverOvercloses]
  rw [hvisible, hover]
  have hempty : Defect.empty.reason = "empty formula" := rfl
  have hunexpected : (Defect.unexpected .closeParen).reason = "unexpected ')'" := rfl
  have hunclosed : Defect.unclosedParen.reason = "unclosed '('" := rfl
  by_cases hblank : AllBlank source.toList
  · -- there are no tokens
    have hbalanced := isBalancedText_of_allBlank hblank
    have hparse : parse source = .error (.malformedFormula source .empty) := by
      rw [parse_of_defect (Or.inl hblank), defectOf_of_allBlank hblank]
    simp only [failsFor_iff hparse, hempty]
    simp [hparse, hblank, hbalanced.neverOvercloses, hbalanced.count_eq]
  by_cases hnever : NeverOvercloses source.toList
  · have hle : source.toList.count ')' ≤ source.toList.count '(' := hnever _ List.prefix_rfl
    by_cases hcount : source.toList.count '(' = source.toList.count ')'
    · -- the parentheses are balanced
      obtain ⟨f, hparse⟩ := parse_of_balanced hblank ⟨hnever, hcount⟩
      have hbalanced : IsBalancedText source.toList := ⟨hnever, hcount⟩
      simp [FailsFor, hparse, hblank, hnever, hbalanced, hcount]
    · -- some are not closed
      have hparse : parse source = .error (.malformedFormula source .unclosedParen) := by
        rw [parse_of_defect (Or.inr fun h => hcount h.count_eq),
          defectOf_of_neverOvercloses hblank hnever]
      have hbalanced : ¬ IsBalancedText source.toList := fun h => hcount h.count_eq
      simp only [failsFor_iff hparse, hunclosed]
      simp [hparse, hblank, hnever, hbalanced, Nat.lt_of_le_of_ne hle (Ne.symm hcount)]
  · -- one is closed that was not opened
    have hbalanced : ¬ IsBalancedText source.toList := fun h => hnever h.neverOvercloses
    have hparse : parse source = .error (.malformedFormula source (.unexpected .closeParen)) := by
      rw [parse_of_defect (Or.inr hbalanced), defectOf_of_not_neverOvercloses hnever]
    simp only [failsFor_iff hparse, hunexpected]
    simp [hparse, hblank, hnever, hbalanced]

end Formula

end TruthTables
