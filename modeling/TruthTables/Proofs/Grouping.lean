import TruthTables.Proofs.Header
import TruthTables.Proofs.Meaning

/-!
# Columns in parentheses

Parentheses around all of a formula do not change its value, but they make other tokens of it. Main
statement: two columns of which one is the other in parentheses are equal if they are formulas with
connectives. If they are variables, they are two different ones.
-/

namespace TruthTables

variable {f g : Formula}

/-- The tokens of `g` are those of `f` in parentheses. -/
def Formula.Encloses (g f : Formula) : Prop :=
  g.tokens = .openParen :: f.tokens ++ [.closeParen]

instance : Decidable (g.Encloses f) :=
  inferInstanceAs (Decidable (_ = _))

namespace Formula.Encloses

lemma isAtomic_eq (h : g.Encloses f) : g.isAtomic = f.isAtomic := by
  rw [Encloses] at h
  simp [isAtomic, h, Token.isLogical]

lemma tokens_ne (h : g.Encloses f) : f.tokens ≠ g.tokens := by
  intro htokens
  have hlength := congrArg List.length h
  simp only [htokens, List.cons_append, List.length_cons, List.length_append] at hlength
  omega

end Formula.Encloses

namespace Header

variable {header : Header} {row : List Bool} {number column column' : Nat}

/-- Before any formula is evaluated only the variables can be looked up. -/
lemma lookup_startRow_eq_none (hf : f ∈ header.entries) (hcompound : f.isAtomic = false) :
    header.lookup (startRow header.blocks number) f.tokens = none := by
  rw [← not_known_iff, known_startRow]
  rintro ⟨g, hg, hatomic, htokens⟩
  rw [header.eq_of_tokens_eq hg hf htokens, hcompound] at hatomic
  cases hatomic

/-- The cell of a formula is also that of the formula in parentheses. -/
lemma IsRow.exists_cell_of_encloses (h : header.IsRow number row)
    (hf : header.entries[column]? = some f) (hg : header.entries[column']? = some g)
    (hencloses : g.Encloses f) (hcompound : f.isAtomic = false) :
    ∃ value, row[column]? = some value ∧ row[column']? = some value := by
  obtain ⟨value, hvalue, hresult⟩ := getElem?_of_forall₂ h hf
  obtain ⟨value', hvalue', hresult'⟩ := getElem?_of_forall₂ h hg
  have hnone : header.lookup (startRow header.blocks number) g.tokens = none :=
    lookup_startRow_eq_none (List.mem_of_getElem? hg) (hencloses.isAtomic_eq.trans hcompound)
  rw [result_evaluate, mapError_eq_ok_iff] at hresult hresult'
  rw [hencloses] at hnone hresult'
  rw [evaluate_parenthesize f.balanced hnone, hresult] at hresult'
  rw [← Except.ok.inj hresult'] at hvalue'
  exact ⟨value, hvalue, hvalue'⟩

end Header

namespace Table

variable {limit : Limit} {header : Header} {table : Table} {column column' : Nat}

/-- Two variables have any two values in some row. -/
lemma exists_row_of_cells (h : (build limit header).result = .ok table)
    (hf : header.entries[column]? = some f) (hg : header.entries[column']? = some g)
    (hatomic : f.isAtomic) (hatomic' : g.isAtomic) (hne : f.tokens ≠ g.tokens)
    (value value' : Bool) :
    ∃ row ∈ table.rows, row[column]? = some value ∧ row[column']? = some value' := by
  obtain ⟨row, hmem, hcells⟩ :=
    exists_row_of_values h fun ts => if ts = f.tokens then value else value'
  obtain ⟨number, hrow⟩ := exists_isRow_of_mem h hmem
  refine ⟨row, hmem, ?_, ?_⟩
  · rw [Header.exists_cell hrow.length_eq hf,
      hcells _ ⟨f, List.mem_of_getElem? hf, hatomic, rfl⟩, if_pos rfl]
  · rw [Header.exists_cell hrow.length_eq hg,
      hcells _ ⟨g, List.mem_of_getElem? hg, hatomic', rfl⟩, if_neg hne.symm]

/-- Let the tokens of one column be those of another in parentheses. Either both are formulas with
connectives, and both columns have the same value in every row, or both are variables, and there is
a row for any two values of them. -/
theorem build_encloses (limit : Limit) (header : Header) (table : Table)
    (h : (build limit header).result = .ok table) (column column' : Nat) (f g : Formula)
    (hf : header.entries[column]? = some f) (hg : header.entries[column']? = some g)
    (hencloses : g.Encloses f) :
    g.isAtomic = f.isAtomic ∧
    (f.isAtomic = false → ∀ row ∈ table.rows,
      ∃ value, row[column]? = some value ∧ row[column']? = some value) ∧
    (f.isAtomic = true → ∀ value value', ∃ row ∈ table.rows,
      row[column]? = some value ∧ row[column']? = some value') := by
  refine ⟨hencloses.isAtomic_eq, ?_, ?_⟩
  · -- only variables are known at the start, so the outer formula is read as parentheses
    intro hcompound row hmem
    obtain ⟨number, hrow⟩ := exists_isRow_of_mem h hmem
    exact hrow.exists_cell_of_encloses hf hg hencloses hcompound
  · -- the variables have different tokens, so they are independent
    intro hatomic
    exact exists_row_of_cells h hf hg hatomic (hencloses.isAtomic_eq.trans hatomic)
      hencloses.tokens_ne

/-- A formula in parentheses, two variables, and the formula itself. -/
def groupedHeader : Header :=
  ((Header.ofTexts ["(p => q)", "p", "q", "p -> q"]).toOption).getD Header.empty

def groupedTable : Table where
  header := groupedHeader
  rows := [[true, false, false, true], [true, false, true, true], [false, true, false, false],
    [true, true, true, true]]

def implicationFormula : Formula :=
  ⟨"p -> q", _, rfl, by decide +kernel, by decide +kernel⟩

def groupedImplication : Formula :=
  ⟨"(p => q)", _, rfl, by decide +kernel, by decide +kernel⟩

theorem groupedTable_has_equal_columns :
    (build {} groupedHeader).result = .ok groupedTable ∧
      groupedHeader.entries[3]? = some implicationFormula ∧
      groupedHeader.entries[0]? = some groupedImplication ∧
      groupedImplication.Encloses implicationFormula ∧ groupedImplication.isAtomic = false ∧
      ∀ row ∈ groupedTable.rows, ∃ value, row[3]? = some value ∧ row[0]? = some value := by
  have h : (build {} groupedHeader).result = .ok groupedTable := by decide +kernel
  have hf : groupedHeader.entries[3]? = some implicationFormula := by decide +kernel
  have hg : groupedHeader.entries[0]? = some groupedImplication := by decide +kernel
  have hencloses : groupedImplication.Encloses implicationFormula := by decide +kernel
  have hcompound : implicationFormula.isAtomic = false := by decide +kernel
  obtain ⟨hsame, hcells, -⟩ := build_encloses {} groupedHeader groupedTable h 3 0
    implicationFormula groupedImplication hf hg hencloses
  exact ⟨h, hf, hg, hencloses, hsame.trans hcompound, hcells hcompound⟩

/-- A variable, and another that is the first one in parentheses. -/
def pairTable : Table where
  header := ((Header.ofTexts ["p", "(p)"]).toOption).getD Header.empty
  rows := [[false, false], [false, true], [true, false], [true, true]]

def bareVariable : Formula :=
  ⟨"p", _, rfl, by decide +kernel, by decide +kernel⟩

def groupedVariable : Formula :=
  ⟨"(p)", _, rfl, by decide +kernel, by decide +kernel⟩

/-- Variables are told apart by parentheses. -/
theorem pairTable_has_different_columns :
    (ofTexts {} ["p", "(p)"]).result = .ok pairTable ∧
      pairTable.header.entries[0]? = some bareVariable ∧
      pairTable.header.entries[1]? = some groupedVariable ∧
      groupedVariable.Encloses bareVariable ∧
      ¬ ∀ row ∈ pairTable.rows, row[0]? = row[1]? := by
  refine ⟨?_, ?_, ?_, ?_, ?_⟩ <;> decide +kernel

end Table

end TruthTables
