import TruthTables.Proofs.Reading
import TruthTables.Row

/-!
# Looking up columns

A list of tokens is found in a header exactly at the column whose tokens it is, and it is looked up
in a row exactly if that column has a value there. The variables of a header can be taken for
nothing else unless one of them is a pair of parentheses around the rest.
-/

namespace TruthTables

lemma Formula.connective_not_mem_of_isAtomic {f : Formula} (h : f.isAtomic) (op : Connective) :
    .connective op ∉ f.tokens := by
  intro hmem
  simp only [isAtomic, Bool.not_eq_true', List.any_eq_false] at h
  exact h _ hmem rfl

namespace Header

variable {header : Header} {row : Row} {ts : List Token} {column column' : Nat} {f g : Formula}
  {value : Bool}

/-! ### Positions -/

lemma eq_column_of_tokens_eq (hf : header.entries[column]? = some f)
    (hg : header.entries[column']? = some g) (h : f.tokens = g.tokens) : column = column' := by
  obtain ⟨hlt, rfl⟩ := List.getElem?_eq_some_iff.1 hf
  obtain ⟨hlt', rfl⟩ := List.getElem?_eq_some_iff.1 hg
  have hdistinct := List.pairwise_iff_getElem.1 header.distinct
  rcases Nat.lt_trichotomy column column' with hcol | hcol | hcol
  · exact absurd h (hdistinct _ _ hlt hlt' hcol)
  · exact hcol
  · exact absurd h.symm (hdistinct _ _ hlt' hlt hcol)

lemma position?_eq_some_iff :
    header.position? ts = some column ↔
      ∃ f, header.entries[column]? = some f ∧ f.tokens = ts := by
  rw [position?, List.findIdx?_eq_some_iff_getElem]
  constructor
  · rintro ⟨hlt, hts, -⟩
    exact ⟨_, List.getElem?_eq_getElem hlt, of_decide_eq_true hts⟩
  · rintro ⟨f, hf, hts⟩
    obtain ⟨hlt, rfl⟩ := List.getElem?_eq_some_iff.1 hf
    refine ⟨hlt, decide_eq_true hts, ?_⟩
    -- no column before it has the same tokens
    intro column' hlt' hts'
    have hf' := List.getElem?_eq_getElem (Nat.lt_trans hlt' hlt)
    have hcol := eq_column_of_tokens_eq hf hf' (hts.trans (of_decide_eq_true hts').symm)
    exact absurd hcol.symm hlt'.ne

lemma position?_eq_none_iff : header.position? ts = none ↔ ∀ f ∈ header.entries, f.tokens ≠ ts := by
  simp [position?, List.findIdx?_eq_none_iff]

lemma position?_of_getElem? (h : header.entries[column]? = some f) :
    header.position? f.tokens = some column :=
  position?_eq_some_iff.2 ⟨f, h, rfl⟩

/-! ### Look-up -/

lemma lookup_eq_some_iff :
    header.lookup row ts = some value ↔
      ∃ column f, header.entries[column]? = some f ∧ f.tokens = ts ∧
        row.value? column = some value := by
  simp only [lookup, Option.bind_eq_some_iff, position?_eq_some_iff]
  constructor
  · rintro ⟨column, ⟨f, hf, hts⟩, hvalue⟩
    exact ⟨column, f, hf, hts, hvalue⟩
  · rintro ⟨column, f, hf, hts, hvalue⟩
    exact ⟨column, ⟨f, hf, hts⟩, hvalue⟩

lemma lookup_of_getElem? (h : header.entries[column]? = some f) :
    header.lookup row f.tokens = row.value? column := by
  rw [lookup, position?_of_getElem? h, Option.bind_some]

lemma result_evaluate (header : Header) (row : Row) (f : Formula) :
    (header.evaluate row f).result =
      (TruthTables.evaluate (header.lookup row) f.tokens).result.mapError
        (Fault.inFormula f.source) := by
  rw [evaluate, Logged.result_mapFailure]

/-! ### Which columns are there -/

/-- The tokens are those of a column. -/
def IsEntry (header : Header) (ts : List Token) : Prop :=
  ∃ f ∈ header.entries, f.tokens = ts

/-- The tokens are those of a variable. -/
def IsVariable (header : Header) (ts : List Token) : Prop :=
  ∃ f ∈ header.entries, f.isAtomic ∧ f.tokens = ts

/-- The tokens are those of a column that has a value. -/
def IsAssigned (header : Header) (row : Row) (ts : List Token) : Prop :=
  ∃ column f, header.entries[column]? = some f ∧ f.tokens = ts ∧ (row.value? column).isSome

lemma IsAssigned.isEntry (h : header.IsAssigned row ts) : header.IsEntry ts := by
  obtain ⟨column, f, hf, hts, -⟩ := h
  exact ⟨f, List.mem_of_getElem? hf, hts⟩

lemma isSome_lookup_iff : (header.lookup row ts).isSome ↔ header.IsAssigned row ts := by
  simp only [Option.isSome_iff_exists, lookup_eq_some_iff, IsAssigned]
  constructor
  · rintro ⟨value, column, f, hf, hts, hvalue⟩
    exact ⟨column, f, hf, hts, value, hvalue⟩
  · rintro ⟨column, f, hf, hts, value, hvalue⟩
    exact ⟨value, column, f, hf, hts, hvalue⟩

lemma known_lookup (header : Header) (row : Row) :
    Known (header.lookup row) = header.IsAssigned row := by
  funext ts
  exact propext isSome_lookup_iff

theorem plainColumns_isVariable
    (hbare : ∀ f ∈ header.entries, f.isAtomic → ¬ Parenthesized f.tokens) :
    PlainColumns header.IsVariable where
  ne_nil := by
    rintro ts ⟨f, -, -, rfl⟩
    exact f.ne_nil
  balanced := by
    rintro ts ⟨f, -, -, rfl⟩
    exact f.balanced
  connective_not_mem := by
    rintro ts op ⟨f, -, hatomic, rfl⟩
    exact f.connective_not_mem_of_isAtomic hatomic op
  not_parenthesized := by
    rintro ts ⟨f, hf, hatomic, rfl⟩
    exact hbare f hf hatomic

end Header

/-! ### Variables of one word -/

/-- One word that does not look like the canonical spelling of a connective. -/
def IsName (ts : List Token) : Prop :=
  ∃ word, ts = [.name word] ∧ Token.isEscaped word = false

instance : DecidablePred IsName
  | [.name word] => decidable_of_iff (Token.isEscaped word = false)
    ⟨fun hword => ⟨word, rfl, hword⟩, fun ⟨_, hts, hword⟩ =>
      Token.name.inj (List.singleton_inj.1 hts) ▸ hword⟩
  | [] | [.connective _] | [.openParen] | [.closeParen] | _ :: _ :: _ =>
    .isFalse fun ⟨_, hts, _⟩ => by simp at hts

theorem plainColumns_isName : PlainColumns IsName where
  ne_nil := by
    rintro ts ⟨word, rfl, -⟩
    simp
  balanced := by
    rintro ts ⟨word, rfl, -⟩
    simp [Balanced]
  connective_not_mem := by
    rintro ts op ⟨word, rfl, -⟩
    simp
  not_parenthesized := by
    rintro ts ⟨word, rfl, -⟩ ⟨inner, -, h⟩
    simp at h

lemma Header.IsAssigned.isName {header : Header} {row : Row} {ts : List Token}
    (hnames : ∀ f ∈ header.entries, IsName f.tokens) (h : header.IsAssigned row ts) :
    IsName ts := by
  obtain ⟨f, hf, rfl⟩ := h.isEntry
  exact hnames f hf

end TruthTables
