import Mathlib.Data.List.Nodup
import Mathlib.Data.List.Pairwise
import TruthTables.Proofs.Logged
import TruthTables.Header

/-!
# Headers from texts

Texts make up a header exactly if each of them is a formula and no two of these have the same
tokens; the columns are these formulas in order.
-/

namespace TruthTables

variable {source : String} {f g : Formula} {header header' : Header} {texts : List String}
  {fs : List Formula}

namespace Formula

lemma parse_source (f : Formula) : parse f.source = .ok f := by
  obtain ⟨source, tokens, rfl, hne, hbalanced⟩ := f
  rw [parse, dif_pos ⟨hne, hbalanced⟩]

/-- A text is the text of one formula at most. -/
lemma source_injective (h : f.source = g.source) : f = g := by
  have hf := f.parse_source
  rw [h, g.parse_source] at hf
  exact (Except.ok.inj hf).symm

end Formula

namespace Header

lemma entries_injective (h : header.entries = header'.entries) : header = header' := by
  cases header
  cases header'
  congr

lemma eq_of_tokens_eq (hf : f ∈ header.entries) (hg : g ∈ header.entries)
    (h : f.tokens = g.tokens) : f = g := by
  by_contra hne
  have : Std.Symm fun e f : Formula => e.tokens ≠ f.tokens := ⟨fun _ _ => Ne.symm⟩
  exact header.distinct.forall hf hg hne h

lemma nodup_entries (header : Header) : header.entries.Nodup :=
  header.distinct.imp fun hne heq => hne (congrArg Formula.tokens heq)

lemma push?_eq_some_iff :
    header.push? f = some header' ↔ header'.entries = header.entries ++ [f] := by
  rw [push?]
  split
  · -- the tokens are new
    rw [Option.some.injEq]
    constructor
    · rintro rfl
      rfl
    · intro h
      exact entries_injective h.symm
  · -- some column has the tokens already, and columns are distinct
    rename_i hnot
    constructor
    · intro h
      cases h
    · intro h
      have hdistinct := header'.distinct
      rw [h, List.pairwise_append] at hdistinct
      exact absurd (fun e he => hdistinct.2.2 e he f (List.mem_singleton_self f)) hnot

lemma push?_eq_none_iff :
    header.push? f = none ↔ ∃ e ∈ header.entries, e.tokens = f.tokens := by
  rw [push?]
  split
  · rename_i hdistinct
    simpa using hdistinct
  · rename_i hsame
    simpa using hsame

/-- A column that has a place in a larger header can be added. -/
lemma exists_push? (h : header'.entries = header.entries ++ f :: fs) :
    ∃ next, header.push? f = some next := by
  have hdistinct := header'.distinct
  rw [h, List.append_cons] at hdistinct
  exact ⟨⟨header.entries ++ [f], (List.pairwise_append.1 hdistinct).1⟩, push?_eq_some_iff.2 rfl⟩

lemma extend_eq_ok_iff :
    header.extend texts = .ok header' ↔
      ∃ fs, header'.entries = header.entries ++ fs ∧ fs.map Formula.source = texts := by
  induction texts generalizing header with
  | nil =>
    rw [extend, Except.ok.injEq]
    constructor
    · rintro rfl
      exact ⟨[], by simp⟩
    · rintro ⟨fs, hentries, hfs⟩
      obtain rfl := List.map_eq_nil_iff.1 hfs
      exact entries_injective (by simpa using hentries.symm)
  | cons source rest ih =>
    rw [extend]
    constructor
    · -- each text is parsed and pushed
      intro h
      cases hparse : Formula.parse source with
      | error e =>
        rw [hparse] at h
        cases h
      | ok f =>
        rw [hparse, ok_bind] at h
        cases hpush : header.push? f with
        | none =>
          rw [hpush] at h
          cases h
        | some next =>
          rw [hpush] at h
          obtain ⟨fs, hentries, hfs⟩ := ih.1 h
          refine ⟨f :: fs, ?_, ?_⟩
          · rw [hentries, push?_eq_some_iff.1 hpush, List.append_assoc, List.singleton_append]
          · rw [List.map_cons, hfs, Formula.source_of_parse hparse]
    · -- a formula parses from its source, and a column of a header can be pushed
      rintro ⟨fs, hentries, hfs⟩
      obtain ⟨f, fs, rfl, rfl, rfl⟩ := List.map_eq_cons_iff.1 hfs
      obtain ⟨next, hpush⟩ := exists_push? hentries
      rw [f.parse_source, ok_bind, hpush]
      refine ih.2 ⟨fs, ?_, rfl⟩
      rw [hentries, push?_eq_some_iff.1 hpush, List.append_assoc, List.singleton_append]

theorem ofTexts_eq_ok_iff : ofTexts texts = .ok header ↔ header.names = texts := by
  rw [ofTexts, extend_eq_ok_iff]
  constructor
  · rintro ⟨fs, hentries, hfs⟩
    rw [names, hentries]
    exact hfs
  · intro h
    exact ⟨header.entries, rfl, h⟩

/-- Every text is a formula, and no two of them have the same tokens. -/
structure AreColumns (texts : List String) : Prop where
  exists_parse : ∀ source ∈ texts, ∃ f, Formula.parse source = .ok f
  nodup : (texts.map tokenize).Nodup

lemma map_tokenize_names (header : Header) :
    header.names.map tokenize = header.entries.map Formula.tokens := by
  rw [names, List.map_map]
  exact List.map_congr_left fun f _ => f.tokens_eq.symm

theorem exists_ofTexts_iff : (∃ header, ofTexts texts = .ok header) ↔ AreColumns texts := by
  constructor
  · rintro ⟨header, h⟩
    obtain rfl := ofTexts_eq_ok_iff.1 h
    refine ⟨?_, ?_⟩
    · intro source hsource
      obtain ⟨f, -, rfl⟩ := List.mem_map.1 hsource
      exact ⟨f, f.parse_source⟩
    · rw [map_tokenize_names]
      exact List.pairwise_map.2 header.distinct
  · intro h
    obtain ⟨fs, hfs⟩ := exists_forall₂_iff.2 h.exists_parse
    have hsources : fs.map Formula.source = texts := by
      rw [← List.forall₂_eq_eq_eq, List.forall₂_map_left_iff]
      exact hfs.flip.imp fun f source hf => Formula.source_of_parse hf
    have hdistinct : fs.Pairwise fun e f => e.tokens ≠ f.tokens := by
      have hnodup := h.nodup
      rw [← hsources, List.map_map] at hnodup
      refine (List.pairwise_map.1 hnodup).imp fun hne htokens => hne ?_
      simpa only [Function.comp_apply, Formula.tokens_eq] using htokens
    exact ⟨⟨fs, hdistinct⟩, ofTexts_eq_ok_iff.2 hsources⟩

/-- Some columns of a header, in any order, are the columns of a header. -/
lemma exists_ofTexts_of_mem_names (hnodup : texts.Nodup)
    (hmem : ∀ source ∈ texts, source ∈ header'.names) :
    ∃ header, ofTexts texts = .ok header ∧ ∀ f ∈ header.entries, f ∈ header'.entries := by
  have hentries : ∀ source ∈ texts, ∃ f, f ∈ header'.entries ∧ f.source = source :=
    fun source hsource => List.mem_map.1 (hmem source hsource)
  have hcolumns : AreColumns texts := by
    refine ⟨?_, hnodup.map_on ?_⟩
    · intro source hsource
      obtain ⟨f, -, rfl⟩ := hentries source hsource
      exact ⟨f, f.parse_source⟩
    · intro source hsource source' hsource' htokens
      obtain ⟨f, hf, rfl⟩ := hentries source hsource
      obtain ⟨g, hg, rfl⟩ := hentries source' hsource'
      rw [← f.tokens_eq, ← g.tokens_eq] at htokens
      rw [header'.eq_of_tokens_eq hf hg htokens]
  obtain ⟨header, hheader⟩ := exists_ofTexts_iff.2 hcolumns
  refine ⟨header, hheader, fun f hf => ?_⟩
  have hsource : f.source ∈ texts := by
    rw [← ofTexts_eq_ok_iff.1 hheader]
    exact List.mem_map_of_mem hf
  obtain ⟨g, hg, hsame⟩ := hentries f.source hsource
  rwa [← Formula.source_injective hsame]

end Header

end TruthTables
