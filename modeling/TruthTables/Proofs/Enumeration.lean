import Mathlib.Logic.ExistsUnique
import TruthTables.Proofs.Table

/-!
# Enumeration of the valuations

The cells of the variables in a row are the binary digits of its number, so each list of values for
the variables stands in exactly one row.
-/

namespace TruthTables

namespace Header

variable {header : Header} {number column : Nat} {f : Formula} {row row' : List Bool}

/-- The cells of a row that belong to variables, from left to right. -/
def variableCells (header : Header) (row : List Bool) : List Bool :=
  selected (header.entries.map Formula.isAtomic) row

lemma length_variableCells (h : row.length = header.size) :
    (header.variableCells row).length = header.atomicCount := by
  rw [variableCells, length_selected (by rw [h, List.length_map, size]), count_map_isAtomic,
    atomicCount]

lemma IsRow.getElem?_eq_of_isAtomic (h : header.IsRow number row)
    (hf : header.entries[column]? = some f) (hatomic : f.isAtomic)
    (hcount : header.atomicCount ≤ 63) (hnumber : number < 2 ^ header.atomicCount) :
    row[column]? = some (number.testBit (header.variablesAfter column)) := by
  obtain ⟨value, hvalue, hresult⟩ := getElem?_of_forall₂ h hf
  have hstart := value?_startRow hf hcount hnumber
  rw [if_pos hatomic] at hstart
  rw [result_evaluate_of_value? hf hstart] at hresult
  rw [hvalue, Except.ok.inj hresult]

lemma IsRow.binary_variableCells (h : header.IsRow number row)
    (hcount : header.atomicCount ≤ 63) (hnumber : number < 2 ^ header.atomicCount) :
    binary (header.variableCells row) = number := by
  have hcells : ∀ column, (header.entries.map Formula.isAtomic)[column]? = some true →
      row[column]? = some (number.testBit
        (((header.entries.map Formula.isAtomic).drop (column + 1)).count true)) := by
    intro column hcolumn
    rw [List.getElem?_map] at hcolumn
    obtain ⟨f, hf, hatomic⟩ := Option.map_eq_some_iff.1 hcolumn
    rw [h.getElem?_eq_of_isAtomic hf hatomic hcount hnumber, ← List.map_drop, count_map_isAtomic]
    rfl
  rw [variableCells, binary_selected (by rw [h.length_eq, List.length_map, size]) hcells,
    count_map_isAtomic, ← atomicCount, Nat.mod_eq_of_lt hnumber]

end Header

namespace Table

variable {limit : Limit} {header : Header} {table : Table} {number : Nat} {row : List Bool}

lemma atomicCount_le_of_build (h : (build limit header).result = .ok table) :
    header.atomicCount ≤ 63 := by
  obtain ⟨⟨hcount, -⟩, -⟩ := build_eq_ok_iff.1 h
  exact hcount.trans (Nat.min_le_right _ _)

lemma length_rows (h : (build limit header).result = .ok table) :
    table.rows.length = 2 ^ header.atomicCount := by
  obtain ⟨-, -, hrows⟩ := build_eq_ok_iff.1 h
  rw [← hrows.length_eq, List.length_range]

lemma binary_variableCells (h : (build limit header).result = .ok table)
    (hrow : table.rows[number]? = some row) : binary (header.variableCells row) = number := by
  obtain ⟨hnumber, hisRow⟩ := isRow_of_build h hrow
  exact hisRow.binary_variableCells (atomicCount_le_of_build h) hnumber

/-- Every list of values for the variables stands in a row. -/
lemma exists_row_of_length (h : (build limit header).result = .ok table) {cells : List Bool}
    (hcells : cells.length = header.atomicCount) :
    ∃ row, table.rows[binary cells]? = some row ∧ header.variableCells row = cells := by
  have hlt : binary cells < table.rows.length := by
    rw [length_rows h, ← hcells]
    exact binary_lt cells
  have hrow := List.getElem?_eq_getElem hlt
  have hlength := (isRow_of_build h hrow).2.length_eq
  refine ⟨_, hrow, ?_⟩
  refine binary_injective ?_ (binary_variableCells h hrow)
  rw [Header.length_variableCells hlength, hcells]

/-- Behind the check of the limit no shift leaves the word, and each block is a power of two that is
not zero. If there is a table, then its rows count in binary. -/
theorem build_counts_in_binary (limit : Limit) (header : Header) :
    (header.atomicCount ≤ limit.effective →
      header.atomicCount < 64 ∧ (rowCount header.atomicCount).toNat = 2 ^ header.atomicCount ∧
        (blocksOf (header.entries.map Formula.isAtomic)).2.toNat = 2 ^ header.atomicCount ∧
        ∀ column block, header.blocks[column]? = some (some block) →
          block.toNat = 2 ^ header.variablesAfter column ∧ block ≠ 0) ∧
    ∀ table, (build limit header).result = .ok table →
      table.rows.length = 2 ^ header.atomicCount ∧
        (∀ row ∈ table.rows, row.length = header.size) ∧
        (∀ number row, table.rows[number]? = some row →
          binary (header.variableCells row) = number) ∧
        ∀ cells : List Bool, cells.length = header.atomicCount →
          ∃! number : Nat,
            ∃ row, table.rows[number]? = some row ∧ header.variableCells row = cells := by
  constructor
  · intro hlimit
    have hcount : header.atomicCount ≤ 63 := hlimit.trans (Nat.min_le_right _ _)
    refine ⟨by omega, toNat_rowCount hcount, ?_, ?_⟩
    · rw [blocksOf_snd, Header.count_map_isAtomic, ← Header.atomicCount,
        toNat_ofNat_two_pow hcount]
    · intro column block hblock
      have hpow := Header.toNat_of_getElem?_blocks hcount hblock
      refine ⟨hpow, ?_⟩
      rintro rfl
      exact absurd hpow.symm (Nat.two_pow_pos _).ne'
  · -- a row spells its own number, so there is one row for each number
    intro table h
    refine ⟨length_rows h, ?_, fun number row => binary_variableCells h, ?_⟩
    · intro row hmem
      obtain ⟨number, hrow⟩ := List.getElem?_of_mem hmem
      exact (isRow_of_build h hrow).2.length_eq
    · intro cells hcells
      obtain ⟨row, hrow, heq⟩ := exists_row_of_length h hcells
      refine ⟨binary cells, ⟨row, hrow, heq⟩, ?_⟩
      rintro number ⟨row', hrow', heq'⟩
      rw [← binary_variableCells h hrow', heq']

end Table

end TruthTables
