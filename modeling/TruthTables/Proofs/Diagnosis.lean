import TruthTables.Proofs.Lookup

/-!
# Which fault is found

Evaluation cuts a formula at its loosest connective and not from left to right, but it comes to the
names from left to right all the same. Main statement: where all columns are single words, a formula
of the grammar fails at its leftmost name without a value, and any other formula is malformed unless
one of its names has no value.
-/

namespace TruthTables

variable {look : List Token → Option Bool} {ts left right : List Token} {op : Connective} {t : Tree}
  {word : String} {l r : Except Fault Bool} {fault : Fault}

/-! ### Where a failure comes from -/

lemma look_eq_none_of_error (h : (evaluate look ts).result = .error fault) : look ts = none := by
  cases hlook : look ts with
  | none => rfl
  | some value =>
    rw [result_evaluate_of_look hlook] at h
    cases h

lemma cases_of_joinResults_eq_error (h : joinResults op left l r = .error fault) :
    fault = .defect (.leftOperand op) ∨ l = .error fault ∨ r = .error fault := by
  rw [joinResults] at h
  split at h
  · split at h
    · exact Or.inl (Except.error.inj h).symm
    · cases r <;> simp_all
  · cases l <;> cases r <;> simp_all

/-- A failure comes from tokens in a row that can neither be looked up nor taken apart, or from a
negation with something before it. -/
theorem exists_faulty_of_result_eq_error (h : (evaluate look ts).result = .error fault) :
    (∃ us, us <:+: ts ∧ look us = none ∧ Shape.ofTokens us = .faulty fault) ∨
      ∃ op, .connective op ∈ ts ∧ fault = .defect (.leftOperand op) := by
  induction ts using Shape.induction with
  | faulty ts fault' hs =>
    have hnone := look_eq_none_of_error h
    rw [result_evaluate_of_faulty hnone hs] at h
    obtain rfl := Except.error.inj h
    exact Or.inl ⟨ts, List.infix_rfl, hnone, hs⟩
  | enclosed ts inner hs ih =>
    rw [result_evaluate_of_enclosed (look_eq_none_of_error h) hs] at h
    obtain ⟨rfl, -⟩ := enclosed?_eq_some_iff.1 (Shape.enclosed?_of_ofTokens hs)
    have hinner : inner <:+: .openParen :: inner ++ [.closeParen] := ⟨[.openParen], _, rfl⟩
    rcases ih h with ⟨us, hus, hrest⟩ | ⟨op, hop, hfault⟩
    · exact Or.inl ⟨us, hus.trans hinner, hrest⟩
    · exact Or.inr ⟨op, hinner.subset hop, hfault⟩
  | joined ts op left right hs ihl ihr =>
    rw [result_evaluate_of_joined (look_eq_none_of_error h) hs] at h
    obtain rfl := Shape.eq_append_of_ofTokens hs
    have hleft : left <:+: left ++ .connective op :: right := (List.prefix_append _ _).isInfix
    have hright : right <:+: left ++ .connective op :: right :=
      ((List.suffix_cons _ _).trans (List.suffix_append _ _)).isInfix
    rcases cases_of_joinResults_eq_error h with hfault | h | h
    · -- there is a left operand, and the connective takes none
      exact Or.inr ⟨op, by simp, hfault⟩
    · -- the left operand fails
      rcases ihl h with ⟨us, hus, hrest⟩ | ⟨op', hop, hfault⟩
      · exact Or.inl ⟨us, hus.trans hleft, hrest⟩
      · exact Or.inr ⟨op', hleft.subset hop, hfault⟩
    · -- the right operand fails
      rcases ihr h with ⟨us, hus, hrest⟩ | ⟨op', hop, hfault⟩
      · exact Or.inl ⟨us, hus.trans hright, hrest⟩
      · exact Or.inr ⟨op', hright.subset hop, hfault⟩

lemma cases_of_ofTokens_eq_faulty (h : Shape.ofTokens ts = .faulty fault) :
    fault = .defect .missingOperand ∨ (∃ t, ts = [t] ∧ fault = t.fault) ∨
      fault = .defect (.unjoined ts) := by
  match ts with
  | [] => exact Or.inl (Shape.faulty.inj h).symm
  | [t] => exact Or.inr (Or.inl ⟨t, rfl, (Shape.faulty.inj h).symm⟩)
  | t :: u :: us =>
    rw [Shape.ofTokens_of_length (by simp)] at h
    split at h
    · cases h
    · split at h
      · cases h
      · exact Or.inr (Or.inr (Shape.faulty.inj h).symm)

/-- The tokens that a fault shows. -/
def Fault.tokens : Fault → List Token
  | unresolved word => [.name word]
  | defect (.unexpected t) => [t]
  | defect (.unknownOperator word) => [.name word]
  | defect (.leftOperand op) => [.connective op]
  | defect (.unjoined ts) => ts
  | defect _ => []

lemma tokens_fault_subset (t : Token) : t.fault.tokens ⊆ [t] := by
  cases t with
  | name word =>
    rw [Token.fault]
    split <;> exact List.Subset.refl _
  | connective | openParen | closeParen => exact List.Subset.refl _

/-- A failure shows tokens of the formula and nothing else. -/
theorem tokens_subset_of_result_eq_error (h : (evaluate look ts).result = .error fault) :
    fault.tokens ⊆ ts := by
  rcases exists_faulty_of_result_eq_error h with ⟨us, hus, -, hs⟩ | ⟨op, hop, rfl⟩
  · rcases cases_of_ofTokens_eq_faulty hs with rfl | ⟨t, rfl, rfl⟩ | rfl
    · exact List.nil_subset _
    · exact List.Subset.trans (tokens_fault_subset t) hus.subset
    · exact hus.subset
  · exact List.cons_subset.2 ⟨hop, List.nil_subset _⟩

/-! ### Unresolved names -/

lemma eq_name_of_fault_eq_unresolved {t : Token} (h : t.fault = .unresolved word) :
    t = .name word ∧ Token.isEscaped word = false := by
  cases t with
  | name w =>
    rw [Token.fault] at h
    split at h
    · cases h
    · rename_i hescaped
      cases h
      exact ⟨rfl, by simpa using hescaped⟩
  | connective | openParen | closeParen => cases h

/-- A name that is not resolved stands in the formula and has no value. -/
theorem of_result_eq_unresolved (h : (evaluate look ts).result = .error (.unresolved word)) :
    .name word ∈ ts ∧ Token.isEscaped word = false ∧ look [.name word] = none := by
  rcases exists_faulty_of_result_eq_error h with ⟨us, hus, hnone, hs⟩ | ⟨op, -, hfault⟩
  · rcases cases_of_ofTokens_eq_faulty hs with hfault | ⟨t, rfl, hfault⟩ | hfault
    · cases hfault
    · obtain ⟨rfl, hescaped⟩ := eq_name_of_fault_eq_unresolved hfault.symm
      exact ⟨hus.subset (List.mem_singleton_self _), hescaped, hnone⟩
    · cases hfault
  · cases hfault

/-! ### Formulas of the grammar -/

/-- Whether a token is a name without a value. -/
def Token.isUnknown (look : List Token → Option Bool) : Token → Bool
  | name word => (look [.name word]).isNone
  | _ => false

/-- The failure at the leftmost name without a value, if there is one, and else this value. -/
def leftmostFailure (look : List Token → Option Bool) (ts : List Token) (value : Bool) :
    Except Fault Bool :=
  match ts.find? (Token.isUnknown look) with
  | some first => .error first.fault
  | none => .ok value

lemma leftmostFailure_name (hescaped : Token.isEscaped word = false) :
    leftmostFailure look [.name word] (valuation look [.name word]) =
      match look [.name word] with
      | some value => .ok value
      | none => .error (.unresolved word) := by
  cases h : look [.name word] <;>
    simp [leftmostFailure, Token.isUnknown, Token.fault, valuation, hescaped, h]

lemma leftmostFailure_parenthesize (value : Bool) :
    leftmostFailure look (.openParen :: ts ++ [.closeParen]) value =
      leftmostFailure look ts value := by
  simp [leftmostFailure, Token.isUnknown, List.find?_append]

lemma leftmostFailure_negation (value : Bool) :
    leftmostFailure look (.connective .not :: ts) (!value) =
      joinResults .not [] l (leftmostFailure look ts value) := by
  rw [leftmostFailure, leftmostFailure, List.find?_cons_of_neg (by simp [Token.isUnknown])]
  cases ts.find? (Token.isUnknown look) <;> rfl

lemma leftmostFailure_join (hop : op.isUnary = false) (a b : Bool) :
    leftmostFailure look (left ++ .connective op :: right) (op.apply a b) =
      joinResults op left (leftmostFailure look left a) (leftmostFailure look right b) := by
  rw [leftmostFailure, leftmostFailure, leftmostFailure, List.find?_append,
    List.find?_cons_of_neg (by simp [Token.isUnknown])]
  cases left.find? (Token.isUnknown look) <;> cases right.find? (Token.isUnknown look) <;>
    simp [joinResults, hop]

/-- The result for a formula of the grammar is the failure at its leftmost name without a value, or
else the value of its tree. -/
theorem ReadsAs.result_evaluate (h : ReadsAs IsName ts t)
    (hlook : ∀ us, Known look us → IsName us) :
    (evaluate look ts).result = leftmostFailure look ts (t.value (valuation look)) := by
  induction h with
  | column h =>
    obtain ⟨word, rfl, hescaped⟩ := h
    rw [Tree.value, leftmostFailure_name hescaped]
    cases hvalue : look [.name word] with
    | some value => exact result_evaluate_of_look hvalue
    | none =>
      rw [result_evaluate_of_faulty hvalue rfl, Token.fault, if_neg (by simp [hescaped])]
  | group hc hs h ih =>
    have hnone := not_known_iff.1 (mt (hlook _) hc)
    obtain ⟨rfl, -⟩ := enclosed?_eq_some_iff.1 (Shape.enclosed?_of_ofTokens hs)
    rw [result_evaluate_of_enclosed hnone hs, ih, leftmostFailure_parenthesize]
    rfl
  | negation hc hs h ih =>
    have hnone := not_known_iff.1 (mt (hlook _) hc)
    obtain rfl := Shape.eq_append_of_ofTokens hs
    rw [result_evaluate_of_joined hnone hs, ih, Tree.value]
    exact (leftmostFailure_negation _).symm
  | join hc hop hs hl hr ihl ihr =>
    have hnone := not_known_iff.1 (mt (hlook _) hc)
    obtain rfl := Shape.eq_append_of_ofTokens hs
    rw [result_evaluate_of_joined hnone hs, ihl, ihr, Tree.value, leftmostFailure_join hop]

/-- Where a name has no value there is a leftmost one. -/
lemma exists_leftmost (hmem : .name word ∈ ts) (hnone : look [.name word] = none) :
    ∃ before first after, ts = before ++ .name first :: after ∧ look [.name first] = none ∧
      (∀ word, .name word ∈ before → (look [.name word]).isSome) ∧
      ∀ value, leftmostFailure look ts value = .error (Token.name first).fault := by
  have hunknown : (ts.find? (Token.isUnknown look)).isSome :=
    List.find?_isSome.2 ⟨_, hmem, by simp [Token.isUnknown, hnone]⟩
  obtain ⟨first, hfirst⟩ := Option.isSome_iff_exists.1 hunknown
  obtain ⟨hfound, before, after, hts, hbefore⟩ := List.find?_eq_some_iff_append.1 hfirst
  cases first with
  | name first =>
    refine ⟨before, first, after, hts, ?_, ?_, ?_⟩
    · simpa [Token.isUnknown] using hfound
    · intro word hword
      simpa [Token.isUnknown, Option.isSome_iff_ne_none] using hbefore _ hword
    · intro value
      rw [leftmostFailure, hfirst]
  | connective | openParen | closeParen => simp [Token.isUnknown] at hfound

/-- The names of a formula of the grammar are unlike the canonical spellings. -/
lemma Derives.isEscaped_eq_false {level : Nat} (h : Derives IsName level ts t)
    (hmem : .name word ∈ ts) : Token.isEscaped word = false := by
  induction h with
  | column h =>
    obtain ⟨word', rfl, hescaped⟩ := h
    obtain rfl := Token.name.inj (List.mem_singleton.1 hmem)
    exact hescaped
  | group h ih => exact ih (by simpa using hmem)
  | negation h ih => exact ih (by simpa using hmem)
  | join hop hl hr ihl ihr =>
    rcases List.mem_append.1 hmem with hmem | hmem
    · exact ihl hmem
    · exact ihr (by simpa using hmem)
  | tighter hlevel h ih => exact ih hmem

namespace Header

variable {header : Header} {row : Row} {f : Formula} {source : String}

lemma result_evaluate_eq_unresolved_iff :
    (header.evaluate row f).result = .error (.unresolvedReference source word) ↔
      source = f.source ∧
        (TruthTables.evaluate (header.lookup row) f.tokens).result =
          .error (.unresolved word) := by
  rw [result_evaluate]
  cases (TruthTables.evaluate (header.lookup row) f.tokens).result with
  | ok value => simp
  | error fault => cases fault <;> simp [Fault.inFormula, eq_comm]

lemma lookup_eq_none_iff {ts : List Token} :
    header.lookup row ts = none ↔ ¬ header.IsAssigned row ts := by
  rw [← isSome_lookup_iff, Option.not_isSome_iff_eq_none]

/-- Let all columns be single words. A formula of the grammar that has names without values fails at
the leftmost of them. A formula outside of the grammar is malformed if all its names have values.
Whatever the columns are, a name that is reported is one of the formula and has no value. -/
theorem evaluate_diagnoses (header : Header) (hnames : ∀ e ∈ header.entries, IsName e.tokens)
    (row : Row) (f : Formula) :
    ((∃ t, Derives IsName 0 f.tokens t) →
      (∃ word, .name word ∈ f.tokens ∧ ¬ header.IsAssigned row [.name word]) →
      ∃ before first after, f.tokens = before ++ .name first :: after ∧
        ¬ header.IsAssigned row [.name first] ∧
        (∀ word, .name word ∈ before → header.IsAssigned row [.name word]) ∧
        (header.evaluate row f).result = .error (.unresolvedReference f.source first)) ∧
    ((¬ ∃ t, Derives IsName 0 f.tokens t) →
      (∀ word, .name word ∈ f.tokens → Token.isEscaped word = false →
        header.IsAssigned row [.name word]) →
      ∃ d, (header.evaluate row f).result = .error (.malformedFormula f.source d)) ∧
    ∀ (header' : Header) (row' : Row) (f' : Formula) (source word : String),
      (header'.evaluate row' f').result = .error (.unresolvedReference source word) →
        source = f'.source ∧ .name word ∈ f'.tokens ∧ Token.isEscaped word = false ∧
          ¬ header'.IsAssigned row' [.name word] := by
  have hlook : ∀ us, Known (header.lookup row) us → IsName us := fun us hus =>
    (isSome_lookup_iff.1 hus).isName hnames
  have hreported : ∀ (header : Header) (row : Row) (f : Formula) (source word : String),
      (header.evaluate row f).result = .error (.unresolvedReference source word) →
        source = f.source ∧ .name word ∈ f.tokens ∧ Token.isEscaped word = false ∧
          ¬ header.IsAssigned row [.name word] := by
    intro header row f source word h
    obtain ⟨hsource, hresult⟩ := result_evaluate_eq_unresolved_iff.1 h
    obtain ⟨hmem, hescaped, hnone⟩ := of_result_eq_unresolved hresult
    exact ⟨hsource, hmem, hescaped, lookup_eq_none_iff.1 hnone⟩
  refine ⟨?_, ?_, hreported⟩
  · -- a tree, but a name without a value: the leftmost of them is told
    rintro ⟨t, ht⟩ ⟨word, hmem, hunassigned⟩
    have hresult := (ht.readsAs plainColumns_isName).result_evaluate hlook
    obtain ⟨before, first, after, hts, hnone, hbefore, hfailure⟩ :=
      exists_leftmost hmem (lookup_eq_none_iff.2 hunassigned)
    have hescaped : Token.isEscaped first = false := ht.isEscaped_eq_false (by simp [hts])
    rw [hfailure, Token.fault, if_neg (by simp [hescaped])] at hresult
    exact ⟨before, first, after, hts, lookup_eq_none_iff.1 hnone,
      fun word hword => isSome_lookup_iff.1 (hbefore word hword),
      result_evaluate_eq_unresolved_iff.2 ⟨rfl, hresult⟩⟩
  · -- no tree, so there is no value either
    intro hnot hassigned
    cases hresult : (TruthTables.evaluate (header.lookup row) f.tokens).result with
    | ok value =>
      obtain ⟨t, hreads, -⟩ := result_evaluate_eq_ok_iff.1 hresult
      have ht := hreads.derives (plainColumns_isName.mono hlook) f.balanced
      exact absurd ⟨t, ht.of_columns fun us hus => hlook us (ht.isColumn_of_mem us hus)⟩ hnot
    | error fault =>
      cases fault with
      | unresolved word =>
        obtain ⟨hmem, hescaped, hnone⟩ := of_result_eq_unresolved hresult
        exact absurd (hassigned word hmem hescaped) (lookup_eq_none_iff.1 hnone)
      | defect d => exact ⟨d, by rw [result_evaluate, hresult]; rfl⟩

/-- Three variables, of which `diagnosisRow` gives a value to the first. -/
def diagnosisHeader : Header :=
  ((ofTexts ["p", "q", "r"]).toOption).getD empty

def diagnosisRow : Row :=
  [some true]

/-- The connective that is evaluated first has the other variables on both of its sides. -/
def unboundFormula : Formula :=
  ⟨"p & r => q", _, rfl, by decide +kernel, by decide +kernel⟩

/-- Two operands without a connective between them. -/
def unjoinedFormula : Formula :=
  ⟨"p (p)", _, rfl, by decide +kernel, by decide +kernel⟩

lemma unboundFormula_derives :
    Derives IsName 0 unboundFormula.tokens
      (.join .implies (.join .and (.column [.name "p"]) (.column [.name "r"]))
        (.column [.name "q"])) := by
  have hname : ∀ word, Token.isEscaped word = false →
      Derives IsName Tree.primary [.name word] (.column [.name word]) := fun word hword =>
    .column ⟨word, rfl, hword⟩
  have hand : Derives IsName Connective.and.level
      ([.name "p"] ++ .connective .and :: [.name "r"])
      (.join .and (.column [.name "p"]) (.column [.name "r"])) :=
    .join rfl ((hname "p" (by decide)).loosen (by decide)) ((hname "r" (by decide)).loosen
      (by decide))
  have htokens : unboundFormula.tokens =
      ([.name "p"] ++ .connective .and :: [.name "r"]) ++ .connective .implies :: [.name "q"] := by
    decide +kernel
  rw [htokens]
  exact (Derives.join rfl (hand.loosen (by decide))
    ((hname "q" (by decide)).loosen (by decide))).loosen (by decide)

lemma unjoinedFormula_not_derives : ¬ ∃ t, Derives IsName 0 unjoinedFormula.tokens t := by
  rintro ⟨t, ht⟩
  have hs : Shape.ofTokens unjoinedFormula.tokens =
      .faulty (.defect (.unjoined unjoinedFormula.tokens)) := by decide +kernel
  exact ReadsAs.not_of_faulty (by decide +kernel) hs (ht.readsAs plainColumns_isName)

theorem diagnosisHeader_diagnoses :
    (∀ e ∈ diagnosisHeader.entries, IsName e.tokens) ∧
      (∃ before after, unboundFormula.tokens = before ++ .name "r" :: after ∧
        ¬ diagnosisHeader.IsAssigned diagnosisRow [.name "r"] ∧
        (∀ word, .name word ∈ before → diagnosisHeader.IsAssigned diagnosisRow [.name word]) ∧
        (diagnosisHeader.evaluate diagnosisRow unboundFormula).result =
          .error (.unresolvedReference "p & r => q" "r")) ∧
      ∃ d, (diagnosisHeader.evaluate diagnosisRow unjoinedFormula).result =
        .error (.malformedFormula "p (p)" d) := by
  have hnames : ∀ e ∈ diagnosisHeader.entries, IsName e.tokens := by decide +kernel
  have hunassigned : ¬ diagnosisHeader.IsAssigned diagnosisRow [.name "r"] :=
    lookup_eq_none_iff.1 (by decide +kernel)
  have hassigned : diagnosisHeader.IsAssigned diagnosisRow [.name "p"] :=
    isSome_lookup_iff.1 (by decide +kernel)
  have hunjoined : unjoinedFormula.tokens =
      [.name "p", .openParen, .name "p", .closeParen] := by decide +kernel
  refine ⟨hnames, ?_, ?_⟩
  · obtain ⟨before, first, after, hts, hfirst, hbefore, hresult⟩ :=
      (evaluate_diagnoses diagnosisHeader hnames diagnosisRow unboundFormula).1
        ⟨_, unboundFormula_derives⟩ ⟨"r", by decide +kernel, hunassigned⟩
    have hr : (diagnosisHeader.evaluate diagnosisRow unboundFormula).result =
        .error (.unresolvedReference "p & r => q" "r") := by decide +kernel
    obtain ⟨-, rfl⟩ := TableError.unresolvedReference.inj (Except.error.inj (hresult.symm.trans hr))
    exact ⟨before, after, hts, hfirst, hbefore, hr⟩
  · refine (evaluate_diagnoses diagnosisHeader hnames diagnosisRow unjoinedFormula).2.1
      unjoinedFormula_not_derives fun word hword _ => ?_
    have hp : word = "p" := by simpa [hunjoined] using hword
    rw [hp]
    exact hassigned

end Header

end TruthTables
