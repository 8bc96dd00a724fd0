import Mathlib.Data.List.Nodup
import TruthTables.Proofs.Alike
import TruthTables.Proofs.Header

/-!
# Places of columns

Columns are added to a header from left to right, and an index can be kept beside them that leads
from the tokens of a column to its place. Main statements: which texts make up a header, that each
list of tokens is found at the column that has it and nowhere else, by search as well as in the
index, and that other texts fail at the first one that is no formula or has the tokens of one before
it.
-/

namespace TruthTables

variable {header next : Header} {texts rest : List String} {source : String} {e : TableError}
  {i j : Nat}

lemma nodup_iff_not_mem_take {α : Type} {as : List α} :
    as.Nodup ↔ ∀ i a, as[i]? = some a → a ∉ as.take i := by
  rw [List.nodup_iff_getElem?_ne_getElem?]
  constructor
  · intro h i a ha hmem
    obtain ⟨j, hj⟩ := List.getElem?_of_mem hmem
    rw [List.getElem?_take] at hj
    split at hj
    · rename_i hlt
      exact h j i hlt (List.getElem?_eq_some_iff.1 ha).1 (hj.trans ha.symm)
    · cases hj
  · intro h i j hij hj heq
    have ha := List.getElem?_eq_getElem hj
    refine h j _ ha (List.mem_of_getElem? (i := i) ?_)
    rw [List.getElem?_take_of_lt hij, heq, ha]

namespace Header

/-! ### Places -/

variable {ts : List Token} {f : Formula}

lemma position?_eq_some_iff_getElem? :
    header.position? ts = some i ↔ (header.entries.map Formula.tokens)[i]? = some ts := by
  rw [position?_eq_some_iff, List.getElem?_map, Option.map_eq_some_iff]

/-- A new column stands behind the others. -/
lemma position?_of_push? (h : header.push? f = some next) (ts : List Token) :
    next.position? ts = if f.tokens = ts then some header.size else header.position? ts := by
  rw [position?, push?_eq_some_iff.1 h, List.findIdx?_append]
  split
  · -- the new column: no other one has its tokens
    rename_i htokens
    have hnone : header.position? ts = none := by
      rw [position?_eq_none_iff, ← htokens]
      intro e he hsame
      rw [push?_eq_none_iff.2 ⟨e, he, hsame⟩] at h
      cases h
    rw [position?] at hnone
    simp [hnone, htokens, size]
  · rename_i htokens
    simp [htokens, position?]

/-! ### The first text that is refused -/

/-- The text at `i` is no formula, or it has the tokens of one before it. -/
def RefusesAt (texts : List String) (i : Nat) (e : TableError) : Prop :=
  ∃ source, texts[i]? = some source ∧
    (Formula.parse source = .error e ∨
      (∃ f, Formula.parse source = .ok f) ∧ tokenize source ∈ (texts.take i).map tokenize ∧
        e = .duplicateEntry source)

lemma refusesAt_take_iff (hj : j < i) : RefusesAt (texts.take i) j e ↔ RefusesAt texts j e := by
  rw [RefusesAt, RefusesAt, List.getElem?_take_of_lt hj, List.take_take, min_eq_left hj.le]

/-- Texts make up a header exactly if none of them is refused. -/
lemma areColumns_iff_forall_not_refusesAt : AreColumns texts ↔ ∀ i e, ¬ RefusesAt texts i e := by
  constructor
  · rintro ⟨hparse, hnodup⟩ i e ⟨source, hsource, he | ⟨-, hmem, -⟩⟩
    · -- the text does not parse
      obtain ⟨f, hf⟩ := hparse source (List.mem_of_getElem? hsource)
      rw [hf] at he
      cases he
    · -- the tokens are those of an earlier text
      rw [List.map_take] at hmem
      refine nodup_iff_not_mem_take.1 hnodup i _ ?_ hmem
      rw [List.getElem?_map, hsource, Option.map_some]
  · intro h
    have hparse : ∀ source ∈ texts, ∃ f, Formula.parse source = .ok f := by
      intro source hmem
      obtain ⟨i, hsource⟩ := List.getElem?_of_mem hmem
      cases hf : Formula.parse source with
      | ok f => exact ⟨f, rfl⟩
      | error e => exact absurd ⟨source, hsource, Or.inl hf⟩ (h i e)
    refine ⟨hparse, nodup_iff_not_mem_take.2 fun i ts hts hmem => ?_⟩
    rw [List.getElem?_map] at hts
    obtain ⟨source, hsource, rfl⟩ := Option.map_eq_some_iff.1 hts
    rw [← List.map_take] at hmem
    have hf := hparse source (List.mem_of_getElem? hsource)
    exact h i _ ⟨source, hsource, Or.inr ⟨hf, hmem, rfl⟩⟩

lemma extend_append (header : Header) (texts rest : List String) :
    header.extend (texts ++ rest) = header.extend texts >>= fun next => next.extend rest := by
  induction texts generalizing header with
  | nil => rfl
  | cons source texts ih =>
    rw [List.cons_append, extend, extend]
    cases Formula.parse source with
    | error e => rfl
    | ok f =>
      rw [ok_bind, ok_bind]
      cases header.push? f with
      | none => rfl
      | some next => exact ih next

/-- Behind a header that the texts before it make up, a text that is refused is an error. -/
lemma RefusesAt.extend_eq_error (h : RefusesAt texts i e)
    (hheader : ofTexts (texts.take i) = .ok header) :
    ∃ source, texts[i]? = some source ∧ header.extend [source] = .error e := by
  obtain ⟨source, hsource, he | ⟨⟨f, hf⟩, hmem, rfl⟩⟩ := h
  · refine ⟨source, hsource, ?_⟩
    rw [extend, he, error_bind]
  · have htokens : f.tokens = tokenize source := by
      rw [f.tokens_eq, Formula.source_of_parse hf]
    rw [← ofTexts_eq_ok_iff.1 hheader, map_tokenize_names, ← htokens] at hmem
    refine ⟨source, hsource, ?_⟩
    rw [extend, hf, ok_bind, push?_eq_none_iff.2 (List.mem_map.1 hmem), Formula.source_of_parse hf]

lemma ofTexts_of_refusesAt (h : RefusesAt texts i e)
    (hfirst : ∀ j < i, ∀ e', ¬ RefusesAt texts j e') : ofTexts texts = .error e := by
  have hcolumns : AreColumns (texts.take i) := by
    rw [areColumns_iff_forall_not_refusesAt]
    intro j e' hrefuses
    by_cases hj : j < i
    · exact hfirst j hj e' ((refusesAt_take_iff hj).1 hrefuses)
    · obtain ⟨source, hsource, -⟩ := hrefuses
      rw [List.getElem?_take_eq_none (not_lt.1 hj)] at hsource
      cases hsource
  obtain ⟨header, hheader⟩ := exists_ofTexts_iff.2 hcolumns
  obtain ⟨source, hsource, herror⟩ := h.extend_eq_error hheader
  obtain ⟨hlt, rfl⟩ := List.getElem?_eq_some_iff.1 hsource
  have hsplit : texts = texts.take i ++ ([texts[i]] ++ texts.drop (i + 1)) := by
    simp
  rw [ofTexts] at hheader ⊢
  rw [hsplit, extend_append, hheader, ok_bind, extend_append, herror, error_bind]

/-- Texts fail at the first one that is refused. -/
theorem ofTexts_eq_error_iff :
    ofTexts texts = .error e ↔
      ∃ i, RefusesAt texts i e ∧ ∀ j < i, ∀ e', ¬ RefusesAt texts j e' := by
  constructor
  · -- the first index at which a text is refused is the one that fails
    intro h
    have hrefused : ∃ i, ∃ e', RefusesAt texts i e' := by
      by_contra hnone
      simp only [not_exists] at hnone
      obtain ⟨header, hheader⟩ :=
        exists_ofTexts_iff.2 (areColumns_iff_forall_not_refusesAt.2 hnone)
      rw [h] at hheader
      cases hheader
    classical
    obtain ⟨e', he'⟩ := Nat.find_spec hrefused
    have hfirst : ∀ j < Nat.find hrefused, ∀ e', ¬ RefusesAt texts j e' :=
      fun j hj e' hrefuses => Nat.find_min hrefused hj ⟨e', hrefuses⟩
    obtain rfl := Except.error.inj (h.symm.trans (ofTexts_of_refusesAt he' hfirst))
    exact ⟨Nat.find hrefused, he', hfirst⟩
  · rintro ⟨i, h, hfirst⟩
    exact ofTexts_of_refusesAt h hfirst

end Header

/-! ### Columns with an index -/

deriving instance Hashable for Connective, Token

/-- Columns, and a map from their tokens to their places. -/
structure IndexedColumns where
  columns : List Formula
  places : Std.HashMap (List Token) Nat

namespace IndexedColumns

variable {indexed : IndexedColumns} {f : Formula}

def empty : IndexedColumns :=
  ⟨[], ∅⟩

/-- Adds columns with the given texts from left to right. The place of a column is put into the map
before it is known whether its tokens had one. -/
def extend (indexed : IndexedColumns) : List String → Except TableError IndexedColumns
  | [] => .ok indexed
  | source :: rest => do
    let f ← Formula.parse source
    let entered := indexed.places.containsThenInsert f.tokens indexed.columns.length
    if entered.1 then .error (.duplicateEntry f.source)
    else extend ⟨indexed.columns ++ [f], entered.2⟩ rest

/-- The columns with these texts, and their index. -/
def ofTexts (texts : List String) : Except TableError IndexedColumns :=
  empty.extend texts

/-- The columns are those of the header, and the map leads to them. -/
structure Indexes (indexed : IndexedColumns) (header : Header) : Prop where
  columns_eq : indexed.columns = header.entries
  getElem?_places (ts : List Token) : indexed.places[ts]? = header.position? ts

namespace Indexes

lemma empty : IndexedColumns.empty.Indexes Header.empty where
  columns_eq := rfl
  getElem?_places _ := Std.HashMap.getElem?_empty

lemma contains_places_eq (h : indexed.Indexes header) (f : Formula) :
    indexed.places.contains f.tokens = (header.push? f).isNone := by
  rw [Std.HashMap.contains_eq_isSome_getElem?, h.getElem?_places, Bool.eq_iff_iff,
    Option.isNone_iff_eq_none, Header.push?_eq_none_iff, Option.isSome_iff_ne_none, ne_eq,
    Header.position?_eq_none_iff]
  simp

/-- A new column is entered at the end. -/
lemma insert (h : indexed.Indexes header) (hnext : header.push? f = some next) :
    Indexes ⟨indexed.columns ++ [f],
      indexed.places.insert f.tokens indexed.columns.length⟩ next where
  columns_eq := by rw [h.columns_eq, Header.push?_eq_some_iff.1 hnext]
  getElem?_places ts := by
    rw [Std.HashMap.getElem?_insert, h.getElem?_places, h.columns_eq,
      Header.position?_of_push? hnext]
    simp [Header.size]

/-- With the index the same columns are added, and the same texts are refused. -/
theorem extend_related (h : indexed.Indexes header) (texts : List String) :
    Related (fun header indexed => indexed.Indexes header) (header.extend texts)
      (indexed.extend texts) := by
  induction texts generalizing header indexed with
  | nil => exact .ok h
  | cons source texts ih =>
    rw [Header.extend, extend]
    cases Formula.parse source with
    | error e => exact .error e
    | ok f =>
      rw [ok_bind, ok_bind]
      dsimp only
      rw [Std.HashMap.containsThenInsert_fst, Std.HashMap.containsThenInsert_snd,
        h.contains_places_eq]
      cases hnext : header.push? f with
      | none => exact .error _
      | some next => exact ih (h.insert hnext)

end Indexes

end IndexedColumns

/-! ### Main results -/

namespace Header

/-- Texts make up a header exactly if they are formulas with different tokens. The columns are these
formulas in order, and a column is a variable exactly if it has no logical token. A list of tokens
is found exactly at the place of the text that has it. Texts that do not make up a header fail at
the first one that is no formula or has the tokens of one before it. An index that is kept beside
the columns leads to the same places and the same failures. -/
theorem ofTexts_indexes (texts : List String) :
    ((∃ header, ofTexts texts = .ok header) ↔ AreColumns texts) ∧
    (∀ header, ofTexts texts = .ok header →
      List.Forall₂ (fun source f => Formula.parse source = .ok f) texts header.entries ∧
      (∀ f ∈ header.entries, f.isAtomic ↔ ∀ t ∈ f.tokens, t.isLogical = false) ∧
      (∀ ts i, header.position? ts = some i ↔ (texts.map tokenize)[i]? = some ts) ∧
      ∀ ts, header.position? ts = none ↔ ts ∉ texts.map tokenize) ∧
    (∀ e, ofTexts texts = .error e ↔
      ∃ i, RefusesAt texts i e ∧ ∀ j < i, ∀ e', ¬ RefusesAt texts j e') ∧
    Related (fun header indexed => indexed.Indexes header) (ofTexts texts)
      (IndexedColumns.ofTexts texts) := by
  refine ⟨exists_ofTexts_iff, ?_, fun e => ofTexts_eq_error_iff,
    IndexedColumns.Indexes.empty.extend_related texts⟩
  intro header h
  obtain rfl := ofTexts_eq_ok_iff.1 h
  refine ⟨?_, ?_, ?_, ?_⟩
  · rw [names, List.forall₂_map_left_iff, List.forall₂_same]
    exact fun f _ => f.parse_source
  · intro f _
    simp [Formula.isAtomic]
  · intro ts i
    rw [position?_eq_some_iff_getElem?, map_tokenize_names]
  · intro ts
    rw [position?_eq_none_iff, map_tokenize_names]
    simp

end Header

end TruthTables
