import Mathlib.Logic.Equiv.Basic
import TruthTables.Proofs.Header
import TruthTables.Proofs.Normalize
import TruthTables.Proofs.Renaming

/-!
# Renamed texts

Texts are renamed when their tokens are, and it does not matter how these are spelled and spaced.
Main statement: if the names in some texts are renamed so that different ones stay different, the
rows of the table are the same, or the same failure is found in the same place.
-/

namespace TruthTables

variable {m : String → String} {word : String}

/-! ### Errors -/

/-- The same error about two texts, with the names renamed. -/
inductive RenamedError (m : String → String) (source source' : String) :
    TableError → TableError → Prop where
  | duplicateEntry :
    RenamedError m source source' (.duplicateEntry source) (.duplicateEntry source')
  | unresolvedReference (word : String) :
    RenamedError m source source' (.unresolvedReference source word)
      (.unresolvedReference source' (m word))
  | malformedFormula (d : Defect) :
    RenamedError m source source' (.malformedFormula source d)
      (.malformedFormula source' (d.rename m))

lemma RenamedError.inFormula (m : String → String) (source source' : String) (fault : Fault) :
    RenamedError m source source' (fault.inFormula source)
      ((fault.rename m).inFormula source') := by
  cases fault with
  | unresolved word => exact .unresolvedReference word
  | defect d => exact .malformedFormula d

/-- What is wrong with a text that is no formula does not depend on names. -/
lemma renamedError_defectOf (m : String → String) (source source' : String) (ts : List Token) :
    RenamedError m source source' (.malformedFormula source (Formula.defectOf ts))
      (.malformedFormula source' (Formula.defectOf ts)) := by
  have hrename : (Formula.defectOf ts).rename m = Formula.defectOf ts := by
    rw [Formula.defectOf]
    split
    · rfl
    · split <;> rfl
  have hmalformed : RenamedError m source source' (.malformedFormula source (Formula.defectOf ts))
      (.malformedFormula source' ((Formula.defectOf ts).rename m)) := .malformedFormula _
  rwa [hrename] at hmalformed

/-! ### Headers of renamed texts -/

/-- The second text has the tokens of the first, with the names renamed. -/
def IsRenamedText (m : String → String) (source source' : String) : Prop :=
  tokenize source' = (tokenize source).map (Token.rename m)

namespace IsRenamedText

variable {source source' : String} {f f' : Formula}

lemma defectOf_eq (h : IsRenamedText m source source') :
    Formula.defectOf (tokenize source') = Formula.defectOf (tokenize source) := by
  rw [h, map_rename_eq_substitute, Formula.defectOf, Formula.defectOf,
    openAfter?_substitute isOperand_name]
  simp only [substitute_eq_nil_iff isOperand_name]

/-- Both texts are formulas, or none is. -/
lemma parse_or (h : IsRenamedText m source source') :
    (∃ f f', Formula.parse source = .ok f ∧ Formula.parse source' = .ok f' ∧ f.IsRenamed m f') ∨
      Formula.parse source =
          .error (.malformedFormula source (Formula.defectOf (tokenize source))) ∧
        Formula.parse source' =
          .error (.malformedFormula source' (Formula.defectOf (tokenize source))) := by
  have hiff : tokenize source' ≠ [] ∧ Balanced (tokenize source') ↔
      tokenize source ≠ [] ∧ Balanced (tokenize source) := by
    rw [h, map_rename_eq_substitute, balanced_substitute_iff isOperand_name, ne_eq, ne_eq,
      substitute_eq_nil_iff isOperand_name]
  by_cases hparse : tokenize source ≠ [] ∧ Balanced (tokenize source)
  · exact Or.inl ⟨_, _, dif_pos hparse, dif_pos (hiff.2 hparse), h⟩
  · refine Or.inr ⟨dif_neg hparse, ?_⟩
    rw [← h.defectOf_eq]
    exact dif_neg (mt hiff.1 hparse)

end IsRenamedText

namespace Header

variable {header header' next next' : Header} {f f' : Formula} {texts texts' : List String}
  {source source' : String} {i : Nat} {e e' : TableError}

/-- The text at `i` is the first that cannot be added to the header. -/
def StopsAt (header : Header) (texts : List String) (i : Nat) (e : TableError) : Prop :=
  (∃ next, header.extend (texts.take i) = .ok next) ∧
    header.extend (texts.take (i + 1)) = .error e ∧ header.extend texts = .error e

lemma extend_cons_of_push? (hf : Formula.parse source = .ok f)
    (hnext : header.push? f = some next) (rest : List String) :
    header.extend (source :: rest) = next.extend rest := by
  rw [extend, hf, ok_bind, hnext]

lemma StopsAt.cons (hf : Formula.parse source = .ok f) (hnext : header.push? f = some next)
    (h : next.StopsAt texts i e) : header.StopsAt (source :: texts) (i + 1) e := by
  have hcons := extend_cons_of_push? hf hnext
  rw [StopsAt, List.take_succ_cons, List.take_succ_cons, hcons, hcons, hcons]
  exact h

lemma stopsAt_zero (h : ∀ rest, header.extend (source :: rest) = .error e) :
    header.StopsAt (source :: texts) 0 e :=
  ⟨⟨header, rfl⟩, h _, h _⟩

/-- Both columns can be added, or none can. -/
lemma IsRenamed.push?_or (hm : KeepsNames m) (h : header.IsRenamed m header')
    (hf : f.IsRenamed m f') :
    (∃ next next', header.push? f = some next ∧ header'.push? f' = some next' ∧
      next.IsRenamed m next') ∨ header.push? f = none ∧ header'.push? f' = none := by
  have hiff : (∀ e ∈ header'.entries, e.tokens ≠ f'.tokens) ↔
      ∀ e ∈ header.entries, e.tokens ≠ f.tokens := by
    rw [← position?_eq_none_iff, ← position?_eq_none_iff, hf, h.position?_eq hm]
  by_cases hpush : ∀ e ∈ header.entries, e.tokens ≠ f.tokens
  · exact Or.inl ⟨_, _, dif_pos hpush, dif_pos (hiff.2 hpush), List.rel_append h (.cons hf .nil)⟩
  · exact Or.inr ⟨dif_neg hpush, dif_neg (mt hiff.1 hpush)⟩

/-- Both lists of texts make up headers, or both fail at the same text, which shows no names. -/
theorem IsRenamed.extend_or (hm : KeepsNames m) (h : header.IsRenamed m header')
    (htexts : List.Forall₂ (IsRenamedText m) texts texts') :
    (∃ next next', header.extend texts = .ok next ∧ header'.extend texts' = .ok next' ∧
      next.IsRenamed m next') ∨
    ∃ i source source' e e', texts[i]? = some source ∧ texts'[i]? = some source' ∧
      header.StopsAt texts i e ∧ header'.StopsAt texts' i e' ∧
        ∀ m, RenamedError m source source' e e' := by
  induction htexts generalizing header header' with
  | nil => exact Or.inl ⟨header, header', rfl, rfl, h⟩
  | @cons source source' texts texts' hsource htexts ih =>
    rcases hsource.parse_or with ⟨f, f', hparse, hparse', hf⟩ | ⟨herror, herror'⟩
    · -- both texts parse
      rcases h.push?_or hm hf with ⟨next, next', hpush, hpush', hnext⟩ | ⟨hnone, hnone'⟩
      · rw [extend_cons_of_push? hparse hpush, extend_cons_of_push? hparse' hpush']
        rcases ih hnext with hok | ⟨i, source, source', e, e', hi, hi', hstops, hstops', herrors⟩
        · exact Or.inl hok
        · exact Or.inr ⟨i + 1, source, source', e, e', hi, hi', hstops.cons hparse hpush,
            hstops'.cons hparse' hpush', herrors⟩
      · -- both columns are there already
        refine Or.inr ⟨0, source, source', .duplicateEntry source, .duplicateEntry source', rfl,
          rfl, stopsAt_zero fun rest => ?_, stopsAt_zero fun rest => ?_, fun m => .duplicateEntry⟩
        · rw [extend, hparse, ok_bind, hnone, Formula.source_of_parse hparse]
        · rw [extend, hparse', ok_bind, hnone', Formula.source_of_parse hparse']
    · -- neither text parses
      refine Or.inr ⟨0, source, source', _, _, rfl, rfl, stopsAt_zero fun rest => ?_,
        stopsAt_zero fun rest => ?_, fun m =>
          renamedError_defectOf m source source' (tokenize source)⟩
      · rw [extend, herror, error_bind]
      · rw [extend, herror', error_bind]

end Header

/-! ### Renaming of words -/

/-- A word that is neither a connective nor marked like the canonical spelling of one. -/
def IsPlainWord (word : String) : Prop :=
  IsWord word ∧ Connective.ofSpelling? word = none ∧ Token.isEscaped word = false

instance (word : String) : Decidable (IsPlainWord word) :=
  inferInstanceAs (Decidable (_ ∧ _))

/-- Different words stay different. Plain words are renamed to plain words, and all others stay what
they are. Nothing is said of texts that are no words. -/
structure IsRenaming (m : String → String) : Prop where
  injective (word word' : String) : IsWord word → IsWord word' → m word = m word' → word = word'
  isPlainWord (word : String) : IsPlainWord word → IsPlainWord (m word)
  eq_of_not_plain (word : String) : IsWord word → ¬ IsPlainWord word → m word = word

/-- The renaming on words, and nothing on other texts. -/
def onWords (m : String → String) (word : String) : String :=
  if IsWord word then m word else word

lemma IsRenaming.isWord (hm : IsRenaming m) (h : IsWord word) : IsWord (m word) := by
  by_cases hplain : IsPlainWord word
  · exact (hm.isPlainWord word hplain).1
  · rwa [hm.eq_of_not_plain word h hplain]

lemma IsRenaming.keepsNames (hm : IsRenaming m) : KeepsNames (onWords m) where
  injective := by
    intro word word' h
    simp only [onWords] at h
    split at h <;> split at h
    · exact hm.injective word word' ‹_› ‹_› h
    · exact absurd (h ▸ hm.isWord ‹_›) ‹¬ IsWord word'›
    · exact absurd (h ▸ hm.isWord ‹_›) ‹¬ IsWord word›
    · exact h
  isEscaped_eq := by
    intro word
    rw [onWords]
    split
    · by_cases hplain : IsPlainWord word
      · rw [(hm.isPlainWord word hplain).2.2, hplain.2.2]
      · rw [hm.eq_of_not_plain word ‹_› hplain]
    · rfl
  eq_of_isEscaped := by
    intro word hescaped
    rw [onWords]
    split
    · refine hm.eq_of_not_plain word ‹_› fun hplain => ?_
      rw [hplain.2.2] at hescaped
      cases hescaped
    · rfl

/-- Two plain words can be exchanged. -/
lemma isRenaming_swap {a b : String} (ha : IsPlainWord a) (hb : IsPlainWord b) :
    IsRenaming (Equiv.swap a b) where
  injective _ _ _ _ h := (Equiv.swap a b).injective h
  isPlainWord := by
    intro word hword
    rw [Equiv.swap_apply_def]
    split
    · exact hb
    · split
      · exact ha
      · exact hword
  eq_of_not_plain := by
    intro word _ hnot
    refine Equiv.swap_apply_of_ne_of_ne ?_ ?_
    · rintro rfl
      exact hnot ha
    · rintro rfl
      exact hnot hb

lemma onWords_of_mem_tokenize {source : String} (h : .name word ∈ tokenize source) :
    onWords m word = m word :=
  if_pos (isWord_of_mem_tokenize h)

lemma IsRenamedText.onWords {source source' : String} (h : IsRenamedText m source source') :
    IsRenamedText (onWords m) source source' := by
  refine Eq.trans h (map_rename_congr fun word hword => ?_)
  exact (onWords_of_mem_tokenize hword).symm

/-! ### Tables of renamed texts -/

namespace Table

/-- The work on these columns fails because of the one at `i`: it cannot be added to the header, or
it is the first without a value. -/
def FailsAt (entries : List String) (i : Nat) (e : TableError) : Prop :=
  Header.empty.StopsAt entries i e ∨
    ∃ header, Header.ofTexts entries = .ok header ∧
      header.FailsAt (startRow header.blocks 0) i e

/-- Let the texts of some columns have the same tokens as others, with the names renamed. Then both
have tables with the same rows, or both have too many variables, or both fail because of columns in
the same place, with the same error about these texts and names. -/
theorem ofTexts_renamed (m : String → String) (hm : IsRenaming m) (limit : Limit)
    (entries entries' : List String) (h : List.Forall₂ (IsRenamedText m) entries entries') :
    (∃ table table', (ofTexts limit entries).result = .ok table ∧
      (ofTexts limit entries').result = .ok table' ∧ table'.rows = table.rows) ∨
    (∃ count, (ofTexts limit entries).result = .error (.tooManyVariables count limit.effective) ∧
      (ofTexts limit entries').result = .error (.tooManyVariables count limit.effective)) ∨
    ∃ i source source' e e', entries[i]? = some source ∧ entries'[i]? = some source' ∧
      (ofTexts limit entries).result = .error e ∧ (ofTexts limit entries').result = .error e' ∧
      FailsAt entries i e ∧ FailsAt entries' i e' ∧ RenamedError m source source' e e' := by
  have hwords := hm.keepsNames
  have hempty : Header.empty.IsRenamed (onWords m) Header.empty := .nil
  rcases hempty.extend_or hwords (h.imp fun _ _ => IsRenamedText.onWords) with
    ⟨header, header', hheader, hheader', hrenamed⟩ | hstop
  · rw [result_ofTexts hheader, result_ofTexts hheader']
    rcases build_or_of_isRenamed hwords hrenamed limit with hok | hmany | hfail
    · exact Or.inl hok
    · exact Or.inr (Or.inl hmany)
    · obtain ⟨i, f, f', fault, hf, hf', htokens, hfails, hfails', he, he'⟩ := hfail
      have hsource : entries[i]? = some f.source := by
        rw [← Header.ofTexts_eq_ok_iff.1 hheader, Header.names, List.getElem?_map, hf]
        rfl
      have hsource' : entries'[i]? = some f'.source := by
        rw [← Header.ofTexts_eq_ok_iff.1 hheader', Header.names, List.getElem?_map, hf']
        rfl
      have hrename : fault.rename (onWords m) = fault.rename m := by
        refine Fault.rename_congr fun word hword => ?_
        exact onWords_of_mem_tokenize (f.tokens_eq ▸ htokens hword)
      rw [hrename] at hfails' he'
      exact Or.inr (Or.inr ⟨i, f.source, f'.source, _, _, hsource, hsource', he, he',
        Or.inr ⟨header, hheader, hfails⟩, Or.inr ⟨header', hheader', hfails'⟩, .inFormula ..⟩)
  · obtain ⟨i, source, source', e, e', hi, hi', hstops, hstops', herrors⟩ := hstop
    refine Or.inr (Or.inr ⟨i, source, source', e, e', hi, hi', ?_, ?_, Or.inl hstops,
      Or.inl hstops', herrors m⟩)
    · exact result_ofTexts_of_error hstops.2.2
    · exact result_ofTexts_of_error hstops'.2.2

/-- The second variable of the formula is no column, whatever it is called. -/
theorem ofTexts_swap_fails :
    IsRenaming (Equiv.swap "p" "alpha") ∧
      List.Forall₂ (IsRenamedText (Equiv.swap "p" "alpha")) ["q", "q => (p)"]
        [" q", "q ->( alpha )"] ∧
      (ofTexts {} ["q", "q => (p)"]).result = .error (.unresolvedReference "q => (p)" "p") ∧
      (ofTexts {} [" q", "q ->( alpha )"]).result =
        .error (.unresolvedReference "q ->( alpha )" "alpha") := by
  have hm : IsRenaming (Equiv.swap "p" "alpha") := isRenaming_swap (by decide) (by decide)
  have htexts : List.Forall₂ (IsRenamedText (Equiv.swap "p" "alpha")) ["q", "q => (p)"]
      [" q", "q ->( alpha )"] :=
    .cons (by rw [IsRenamedText]; decide +kernel)
      (.cons (by rw [IsRenamedText]; decide +kernel) .nil)
  have hresult : (ofTexts {} ["q", "q => (p)"]).result =
      .error (.unresolvedReference "q => (p)" "p") := by decide +kernel
  refine ⟨hm, htexts, hresult, ?_⟩
  rcases ofTexts_renamed _ hm {} _ _ htexts with ⟨table, -, hok, -⟩ | ⟨count, hmany, -⟩ |
    ⟨i, source, source', e, e', hi, hi', he, he', -, -, herrors⟩
  · simp [hresult] at hok
  · simp [hresult] at hmany
  · obtain rfl := Except.error.inj (hresult.symm.trans he)
    cases herrors
    obtain rfl : source' = "q ->( alpha )" := by
      match i with
      | 0 => simp at hi
      | 1 => exact (Option.some.inj hi').symm
      | i + 2 => simp at hi
    rw [he', Equiv.swap_apply_left]

end Table

end TruthTables
