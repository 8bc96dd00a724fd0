import TruthTables.Proofs.Enumeration

/-!
# The meaning of a table

Every column of a table that is not a variable has one derivation tree over the variables, and its
cells are the values of that tree. Since every valuation of the variables is in some row, a column
decides whether its tree is a tautology, and two columns whether their trees are equivalent.
-/

namespace TruthTables

namespace Header

variable {header : Header} {row : List Bool} {number column : Nat} {f : Formula} {ts : List Token}
  {t : Tree}

/-- The cell of the column with these tokens. -/
def cells (header : Header) (row : List Bool) : List Token → Bool :=
  valuation (header.lookup (row.map some))

/-- The tree is derived over the variables, and a column that is not one of them is written like
it. -/
def HasTree (header : Header) (column : Nat) (t : Tree) : Prop :=
  ∃ f, header.entries[column]? = some f ∧ f.isAtomic = false ∧
    Derives header.IsVariable 0 f.tokens t

lemma known_startRow (header : Header) (number : Nat) :
    Known (header.lookup (startRow header.blocks number)) = header.IsVariable := by
  rw [known_lookup]
  funext ts
  exact propext (isAssigned_startRow_iff header number)

lemma cells_of_getElem? (hf : header.entries[column]? = some f) {value : Bool}
    (hvalue : row[column]? = some value) : header.cells row f.tokens = value := by
  refine valuation_of_look ?_
  rw [lookup_of_getElem? hf, Row.value?, List.getElem?_map, hvalue]
  rfl

lemma exists_cell (hlength : row.length = header.size) (hf : header.entries[column]? = some f) :
    row[column]? = some (header.cells row f.tokens) := by
  have hlt : column < row.length := hlength ▸ (List.getElem?_eq_some_iff.1 hf).1
  have hvalue := List.getElem?_eq_getElem hlt
  rw [cells_of_getElem? hf hvalue, hvalue]

/-- A variable keeps its value in the finished row. -/
lemma IsRow.valuation_startRow (h : header.IsRow number row) (hts : header.IsVariable ts) :
    valuation (header.lookup (startRow header.blocks number)) ts = header.cells row ts := by
  obtain ⟨column, f, hf, rfl, hsome⟩ := (isAssigned_startRow_iff header number).2 hts
  obtain ⟨value, hvalue⟩ := Option.isSome_iff_exists.1 hsome
  obtain ⟨value', hrow, hresult⟩ := getElem?_of_forall₂ h hf
  rw [result_evaluate_of_value? hf hvalue] at hresult
  obtain rfl := Except.ok.inj hresult
  rw [cells_of_getElem? hf hrow]
  exact valuation_of_look (by rw [lookup_of_getElem? hf, hvalue])

section

variable (hC : PlainColumns header.IsVariable)

include hC

/-- A column with a value has a tree, and the value is that of the tree. -/
lemma IsRow.exists_derives (h : header.IsRow number row) (hf : header.entries[column]? = some f) :
    ∃ t, Derives header.IsVariable 0 f.tokens t ∧
      row[column]? = some (t.value (header.cells row)) := by
  obtain ⟨value, hvalue, hresult⟩ := getElem?_of_forall₂ h hf
  rw [result_evaluate, mapError_eq_ok_iff, result_evaluate_eq_ok_iff, known_startRow] at hresult
  obtain ⟨t, hreads, rfl⟩ := hresult
  have ht : Derives header.IsVariable 0 f.tokens t := hreads.derives hC f.balanced
  refine ⟨t, ht, ?_⟩
  rw [hvalue, Tree.value_congr fun us hus => h.valuation_startRow (ht.isColumn_of_mem us hus)]

lemma HasTree.unique {t' : Tree} (h : header.HasTree column t) (h' : header.HasTree column t') :
    t = t' := by
  obtain ⟨f, hf, -, ht⟩ := h
  obtain ⟨g, hg, -, ht'⟩ := h'
  obtain rfl : f = g := Option.some.inj (hf.symm.trans hg)
  exact ht.unique hC ht'

end

end Header

namespace Table

variable {limit : Limit} {header : Header} {table : Table} {column column' : Nat} {t t' : Tree}

/-- Every valuation of the variables is that of a row. -/
lemma exists_row_of_values (h : (build limit header).result = .ok table)
    (values : List Token → Bool) :
    ∃ row ∈ table.rows, ∀ ts, header.IsVariable ts → header.cells row ts = values ts := by
  have hlength : (header.entries.map fun f => values f.tokens).length = header.size :=
    List.length_map ..
  obtain ⟨row, hrow, heq⟩ := exists_row_of_length h (Header.length_variableCells hlength)
  refine ⟨row, List.mem_of_getElem? hrow, ?_⟩
  rintro ts ⟨f, hmem, hatomic, rfl⟩
  obtain ⟨column, hf⟩ := List.getElem?_of_mem hmem
  have hflags : (header.entries.map Formula.isAtomic).length = header.size := List.length_map ..
  have hvalue := getElem?_eq_of_selected_eq
    ((isRow_of_build h hrow).2.length_eq.trans hflags.symm) (hlength.trans hflags.symm) heq
    (by rw [List.getElem?_map, hf, Option.map_some, hatomic] : _ = some true)
  rw [List.getElem?_map, hf, Option.map_some] at hvalue
  exact Header.cells_of_getElem? hf hvalue

end Table

end TruthTables
