import TruthTables.Proofs.Failure
import TruthTables.Proofs.Header
import TruthTables.Proofs.Meaning
import TruthTables.Proofs.Valuations

/-!
# Tables of some of the columns

A table of some columns of a header, in any order, consists of the rows of the whole table with the
other columns left out. What the columns mean does not change, because a column has one derivation
tree over the variables and that tree is over the variables that are kept.
-/

namespace TruthTables

/-! ### Cells of some columns -/

lemma selected_map {α : Type} (p g : α → Bool) (as : List α) :
    selected (as.map p) (as.map g) = (as.filter p).map g := by
  induction as with
  | nil => rfl
  | cons a as ih =>
    cases hp : p a <;> simpa [selected, hp] using ih

lemma agrees_map_iff {α : Type} (g : α → Option Bool) (k : α → Bool) (as : List α) :
    agrees (as.map g) (as.map k) ↔ ∀ a ∈ as, (g a).getD (k a) = k a := by
  induction as with
  | nil => simp [agrees]
  | cons a as ih => simp [agrees, ih]

namespace Header

variable {header header' : Header} {row row' : List Bool} {number number' column column' : Nat}
  {f : Formula} {ts : List Token}

/-- The cells of a row that belong to the columns of another header, in the order of that header. -/
def project (header' header : Header) (row' : List Bool) : List Bool :=
  header.entries.map fun f => header'.cells row' f.tokens

lemma map_cells (hlength : row.length = header.size) :
    (header.entries.map fun f => header.cells row f.tokens) = row := by
  refine List.ext_getElem? fun column => ?_
  rw [List.getElem?_map]
  cases hf : header.entries[column]? with
  | none =>
    have hle : row.length ≤ column := hlength ▸ List.getElem?_eq_none_iff.1 hf
    rw [List.getElem?_eq_none hle, Option.map_none]
  | some f => rw [exists_cell hlength hf, Option.map_some]

lemma variableCells_eq (hlength : row.length = header.size) :
    header.variableCells row =
      (header.entries.filter Formula.isAtomic).map fun f => header.cells row f.tokens := by
  rw [← selected_map, map_cells hlength, variableCells]

variable (hsub : ∀ f ∈ header.entries, f ∈ header'.entries)

include hsub

lemma IsVariable.of_subheader (h : header.IsVariable ts) : header'.IsVariable ts := by
  obtain ⟨f, hf, hatomic, hts⟩ := h
  exact ⟨f, hsub f hf, hatomic, hts⟩

/-- Rows that agree on the variables agree on all columns. -/
lemma IsRow.project_eq (hC : PlainColumns header'.IsVariable) (h : header.IsRow number row)
    (h' : header'.IsRow number' row')
    (hcells : ∀ ts, header.IsVariable ts → header'.cells row' ts = header.cells row ts) :
    header'.project header row' = row := by
  have hC' : PlainColumns header.IsVariable := hC.mono fun ts hts => hts.of_subheader hsub
  rw [← map_cells h.length_eq]
  refine List.map_congr_left fun f hf => ?_
  obtain ⟨column, hcolumn⟩ := List.getElem?_of_mem hf
  obtain ⟨column', hcolumn'⟩ := List.getElem?_of_mem (hsub f hf)
  obtain ⟨t, ht, hvalue⟩ := h.exists_derives hC' hcolumn
  obtain ⟨t', ht', hvalue'⟩ := h'.exists_derives hC hcolumn'
  have htree : t = t' := (ht.of_columns fun us hus =>
    (ht.isColumn_of_mem us hus).of_subheader hsub).unique hC ht'
  subst htree
  rw [cells_of_getElem? hcolumn hvalue, cells_of_getElem? hcolumn' hvalue']
  exact t.value_congr fun us hus => hcells us (ht.isColumn_of_mem us hus)

lemma IsRow.project_eq_iff (hC : PlainColumns header'.IsVariable) (h : header.IsRow number row)
    (h' : header'.IsRow number' row') :
    header'.project header row' = row ↔
      ∀ ts, header.IsVariable ts → header'.cells row' ts = header.cells row ts := by
  refine ⟨?_, h.project_eq hsub hC h'⟩
  rintro hrow ts ⟨f, hf, -, rfl⟩
  have hmap : header.entries.map (fun f => header'.cells row' f.tokens) =
      header.entries.map fun f => header.cells row f.tokens := by
    rw [map_cells h.length_eq]
    exact hrow
  exact List.map_inj_left.1 hmap f hf

/-- The variables of some columns, counted among all variables. -/
lemma countP_mem_entries :
    (header'.entries.filter Formula.isAtomic).countP (· ∈ header.entries) = header.atomicCount := by
  have hperm : ((header'.entries.filter Formula.isAtomic).filter (· ∈ header.entries)).Perm
      (header.entries.filter Formula.isAtomic) := by
    rw [List.perm_ext_iff_of_nodup ((header'.nodup_entries.filter _).filter _)
      (header.nodup_entries.filter _)]
    intro f
    simp only [List.mem_filter, decide_eq_true_eq]
    constructor
    · rintro ⟨⟨-, hatomic⟩, hf⟩
      exact ⟨hf, hatomic⟩
    · rintro ⟨hf, hatomic⟩
      exact ⟨⟨hsub f hf, hatomic⟩, hf⟩
  rw [List.countP_eq_length_filter, hperm.length_eq, atomicCount, List.countP_eq_length_filter]

lemma atomicCount_le : header.atomicCount ≤ header'.atomicCount := by
  rw [← countP_mem_entries hsub, atomicCount, List.countP_eq_length_filter,
    List.countP_eq_length_filter]
  exact List.length_filter_le _ _

/-- The values of the variables that stay, if those of a row are wanted. -/
def fixedBy (header' header : Header) (row : List Bool) : List (Option Bool) :=
  (header'.entries.filter Formula.isAtomic).map fun f =>
    if f ∈ header.entries then some (header.cells row f.tokens) else none

lemma count_fixedBy (row : List Bool) :
    (header'.fixedBy header row).count none = header'.atomicCount - header.atomicCount := by
  have hsplit := (header'.entries.filter Formula.isAtomic).length_eq_countP_add_countP
    (· ∈ header.entries)
  rw [countP_mem_entries hsub, ← List.countP_eq_length_filter, ← atomicCount] at hsplit
  have hcount : (header'.fixedBy header row).count none =
      (header'.entries.filter Formula.isAtomic).countP (fun f => ¬ f ∈ header.entries) := by
    rw [fixedBy, List.count, List.countP_map]
    refine List.countP_congr fun f _ => ?_
    by_cases hf : f ∈ header.entries <;> simp [hf]
  rw [hcount]
  simp only [Bool.not_eq_true, decide_eq_false_iff_not] at hsplit
  omega

lemma agrees_fixedBy_iff (hlength : row'.length = header'.size) :
    agrees (header'.fixedBy header row) (header'.variableCells row') ↔
      ∀ ts, header.IsVariable ts → header'.cells row' ts = header.cells row ts := by
  rw [variableCells_eq hlength, fixedBy, agrees_map_iff]
  constructor
  · -- each variable of the part has a fixed value
    rintro h ts ⟨f, hf, hatomic, rfl⟩
    have hvalue := h f (List.mem_filter.2 ⟨hsub f hf, hatomic⟩)
    rw [if_pos hf, Option.getD_some] at hvalue
    exact hvalue.symm
  · -- each fixed value is that of a variable of the part
    intro h f hf
    by_cases hmem : f ∈ header.entries
    · rw [if_pos hmem, Option.getD_some]
      exact (h _ ⟨f, hmem, (List.mem_filter.1 hf).2, rfl⟩).symm
    · rw [if_neg hmem, Option.getD_none]

end Header

namespace Table

variable {limit limit' : Limit} {header header' : Header} {table table' : Table}

/-- The variables of a table count through all valuations. -/
lemma map_variableCells (h : (build limit header).result = .ok table) :
    table.rows.map header.variableCells = valuations header.atomicCount := by
  refine eq_valuations (by rw [List.length_map, length_rows h]) fun number bits hbits => ?_
  rw [List.getElem?_map] at hbits
  obtain ⟨row, hrow, rfl⟩ := Option.map_eq_some_iff.1 hbits
  exact ⟨Header.length_variableCells (isRow_of_build h hrow).2.length_eq,
    binary_variableCells h hrow⟩

/-- If all variables stay, there is a table of the columns that are kept. -/
lemma exists_build_of_subheader (hsub : ∀ f ∈ header.entries, f ∈ header'.entries)
    (h' : (build limit header').result = .ok table')
    (hvariables : ∀ f ∈ header'.entries, f.isAtomic → f ∈ header.entries) :
    ∃ table, (build limit header).result = .ok table := by
  obtain ⟨⟨hcount', halloc'⟩, -⟩ := build_eq_ok_iff.1 h'
  have hle := Header.atomicCount_le hsub
  have halloc : isAllocatable header.atomicCount := by
    rw [isAllocatable_iff (atomicCount_le_of_build h')] at halloc'
    rw [isAllocatable_iff (hle.trans (atomicCount_le_of_build h'))]
    exact hle.trans_lt halloc'
  have hsame : ∀ ts, header'.IsVariable ts ↔ header.IsVariable ts := by
    refine fun ts => ⟨?_, Header.IsVariable.of_subheader hsub⟩
    rintro ⟨f, hf, hatomic, hts⟩
    exact ⟨f, hvariables f hf hatomic, hatomic, hts⟩
  have hstart := header.assignsVariables_startRow 0
  have hstart' := header'.assignsVariables_startRow 0
  rw [exists_build_iff (hle.trans hcount') halloc hstart]
  intro f hf hatomic
  have halike := Header.evaluate_alike_of_assignsVariables hstart' hstart hsame f
  rw [← halike.related.exists_ok_iff]
  exact (exists_build_iff hcount' halloc' hstart').1 ⟨table', h'⟩ f (hsub f hf) hatomic

section

variable (hsub : ∀ f ∈ header.entries, f ∈ header'.entries)
  (hC : PlainColumns header'.IsVariable) (h' : (build limit' header').result = .ok table')
  (h : (build limit header).result = .ok table)

include hsub hC h' h

lemma project_mem_rows : ∀ row' ∈ table'.rows, header'.project header row' ∈ table.rows := by
  intro row' hmem'
  obtain ⟨number', hisRow'⟩ := exists_isRow_of_mem h' hmem'
  obtain ⟨row, hmem, hcells⟩ := exists_row_of_values h (header'.cells row')
  obtain ⟨number, hisRow⟩ := exists_isRow_of_mem h hmem
  rw [hisRow.project_eq hsub hC hisRow' fun ts hts => (hcells ts hts).symm]
  exact hmem

/-- Each row comes from as many rows as there are valuations of the variables left out. -/
lemma countP_project : ∀ row ∈ table.rows,
    (table'.rows.countP fun row' => header'.project header row' = row) =
      2 ^ (header'.atomicCount - header.atomicCount) := by
  intro row hmem
  obtain ⟨number, hisRow⟩ := exists_isRow_of_mem h hmem
  have hagrees : table'.rows.countP (fun row' => header'.project header row' = row) =
      table'.rows.countP (agrees (header'.fixedBy header row) ∘ header'.variableCells) := by
    refine List.countP_congr fun row' hmem' => ?_
    obtain ⟨number', hisRow'⟩ := exists_isRow_of_mem h' hmem'
    rw [decide_eq_true_iff, hisRow.project_eq_iff hsub hC hisRow', Function.comp_apply,
      Header.agrees_fixedBy_iff hsub hisRow'.length_eq]
  have hlength : (header'.fixedBy header row).length = header'.atomicCount := by
    rw [Header.fixedBy, List.length_map, ← List.countP_eq_length_filter, Header.atomicCount]
  have hcount := countP_agrees (header'.fixedBy header row)
  rw [hlength, Header.count_fixedBy hsub] at hcount
  rw [hagrees, ← List.countP_map, map_variableCells h', hcount]

/-- If all variables stay in their order, so do all rows. -/
lemma rows_eq_map_project
    (hsame : header.entries.filter Formula.isAtomic = header'.entries.filter Formula.isAtomic) :
    table.rows = table'.rows.map (header'.project header) := by
  have hcount : header.atomicCount = header'.atomicCount := by
    rw [Header.atomicCount, Header.atomicCount, List.countP_eq_length_filter, hsame,
      ← List.countP_eq_length_filter]
  refine List.ext_getElem ?_ fun number hlt hlt' => ?_
  · rw [List.length_map, length_rows h, length_rows h', hcount]
  · rw [List.length_map] at hlt'
    have hrow := List.getElem?_eq_getElem hlt
    have hrow' := List.getElem?_eq_getElem hlt'
    have hisRow := (isRow_of_build h hrow).2
    have hisRow' := (isRow_of_build h' hrow').2
    -- both rows spell the same number, so their variables have the same values
    have hdigits : header.variableCells table.rows[number] =
        header'.variableCells table'.rows[number] := by
      refine binary_injective ?_ ?_
      · rw [Header.length_variableCells hisRow.length_eq,
          Header.length_variableCells hisRow'.length_eq, hcount]
      · rw [binary_variableCells h hrow, binary_variableCells h' hrow']
    rw [Header.variableCells_eq hisRow.length_eq, Header.variableCells_eq hisRow'.length_eq,
      hsame] at hdigits
    rw [List.getElem_map]
    refine (hisRow.project_eq hsub hC hisRow' ?_).symm
    rintro ts ⟨f, hf, hatomic, rfl⟩
    exact (List.map_inj_left.1 hdigits f (List.mem_filter.2 ⟨hsub f hf, hatomic⟩)).symm

end

/-- Some columns of a table, in any order, make up a header. If all variables are kept, it has a
table too. Its table consists of the rows of the whole table with the other columns left out, and
each of its rows comes from as many rows of the whole table as there are valuations of the variables
left out. If the variables are kept in their order, the rows correspond one by one. -/
theorem ofTexts_projects (limit : Limit) (header : Header) (table : Table)
    (h : (build limit header).result = .ok table)
    (hbare : ∀ f ∈ header.entries, f.isAtomic → ¬ Parenthesized f.tokens) (texts : List String)
    (hnodup : texts.Nodup) (hmem : ∀ source ∈ texts, source ∈ header.names) :
    ((∀ f ∈ header.entries, f.isAtomic → f.source ∈ texts) →
      ∃ part, (ofTexts limit texts).result = .ok part) ∧
    ∀ (limit' : Limit) (part : Table), (ofTexts limit' texts).result = .ok part →
      part.header.names = texts ∧
      (∀ row ∈ table.rows, header.project part.header row ∈ part.rows) ∧
      (∀ row' ∈ part.rows,
        (table.rows.countP fun row => header.project part.header row = row') =
          2 ^ (header.atomicCount - part.header.atomicCount)) ∧
      (part.header.entries.filter Formula.isAtomic = header.entries.filter Formula.isAtomic →
        part.rows = table.rows.map (header.project part.header)) := by
  have hC := Header.plainColumns_isVariable hbare
  obtain ⟨header', hheader', hsub⟩ := Header.exists_ofTexts_of_mem_names hnodup hmem
  have hnames := Header.ofTexts_eq_ok_iff.1 hheader'
  refine ⟨?_, ?_⟩
  · intro hvariables
    rw [result_ofTexts hheader']
    refine exists_build_of_subheader hsub h fun f hf hatomic => ?_
    obtain ⟨g, hg, hsource⟩ := List.mem_map.1 (hnames ▸ hvariables f hf hatomic)
    rwa [← Formula.source_injective hsource]
  · intro limit' part hpart
    rw [result_ofTexts hheader'] at hpart
    obtain rfl : part.header = header' := (build_eq_ok_iff.1 hpart).2.1
    exact ⟨hnames, project_mem_rows hsub hC h hpart, countP_project hsub hC h hpart,
      rows_eq_map_project hsub hC h hpart⟩

/-- Two variables and two formulas, the second of which has only one of them. -/
def excludedMiddleHeader : Header :=
  ((Header.ofTexts ["p", "q", "p => q", "! q || q"]).toOption).getD Header.empty

def excludedMiddleTable : Table where
  header := excludedMiddleHeader
  rows := [[false, false, true, true], [false, true, true, true], [true, false, false, true],
    [true, true, true, true]]

/-- The columns without the other variable. -/
def excludedMiddlePart : Table where
  header := ((Header.ofTexts ["! q || q", "q"]).toOption).getD Header.empty
  rows := [[true, false], [true, true]]

theorem excludedMiddleTable_projects :
    (build {} excludedMiddleHeader).result = .ok excludedMiddleTable ∧
      (∀ f ∈ excludedMiddleHeader.entries, f.isAtomic → ¬ Parenthesized f.tokens) ∧
      (ofTexts {} ["! q || q", "q"]).result = .ok excludedMiddlePart ∧
      (∀ row ∈ excludedMiddleTable.rows,
        excludedMiddleHeader.project excludedMiddlePart.header row ∈ excludedMiddlePart.rows) ∧
      ∀ row' ∈ excludedMiddlePart.rows, (excludedMiddleTable.rows.countP fun row =>
        excludedMiddleHeader.project excludedMiddlePart.header row = row') = 2 := by
  have h : (build {} excludedMiddleHeader).result = .ok excludedMiddleTable := by decide +kernel
  have hnone : ∀ f ∈ excludedMiddleHeader.entries, f.isAtomic → enclosed? f.tokens = none := by
    decide +kernel
  have hbare : ∀ f ∈ excludedMiddleHeader.entries, f.isAtomic → ¬ Parenthesized f.tokens :=
    fun f hf hatomic => (enclosed?_eq_none_iff_of_balanced f.balanced).1 (hnone f hf hatomic)
  have hpart : (ofTexts {} ["! q || q", "q"]).result = .ok excludedMiddlePart := by decide +kernel
  have hcounts :
      2 ^ (excludedMiddleHeader.atomicCount - excludedMiddlePart.header.atomicCount) = 2 := by
    decide +kernel
  obtain ⟨-, hrows, hcount, -⟩ := (ofTexts_projects {} excludedMiddleHeader excludedMiddleTable h
    hbare ["! q || q", "q"] (by decide) (by decide +kernel)).2 {} excludedMiddlePart hpart
  rw [hcounts] at hcount
  exact ⟨h, hbare, hpart, hrows, hcount⟩

end Table

end TruthTables
