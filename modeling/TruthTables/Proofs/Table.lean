import TruthTables.Proofs.Counting
import TruthTables.Proofs.Fill

/-!
# Rows of a table

Main statements: a header has a table exactly if its variables are few enough and every column has
a value in the row of each number, evaluated from the variables alone; the rows then hold these
values. That columns are filled one after the other is not visible in any result.
-/

namespace TruthTables

/-! ### The row of a number before any formula is evaluated -/

namespace Header

variable {header : Header} {number column : Nat} {f : Formula} {ts : List Token} {row : Row}

/-- The number of variables on the right of a column. -/
def variablesAfter (header : Header) (column : Nat) : Nat :=
  (header.entries.drop (column + 1)).countP Formula.isAtomic

lemma count_map_isAtomic (entries : List Formula) :
    (entries.map Formula.isAtomic).count true = entries.countP Formula.isAtomic := by
  rw [List.count, List.countP_map]
  refine List.countP_congr fun f _ => ?_
  simp

lemma variablesAfter_lt (hf : header.entries[column]? = some f) (hatomic : f.isAtomic) :
    header.variablesAfter column < header.atomicCount := by
  obtain ⟨hlt, rfl⟩ := List.getElem?_eq_some_iff.1 hf
  have hsplit : header.atomicCount = (header.entries.take column).countP Formula.isAtomic +
      (header.entries.drop column).countP Formula.isAtomic := by
    rw [← List.countP_append, List.take_append_drop, atomicCount]
  rw [List.drop_eq_getElem_cons hlt, List.countP_cons, if_pos hatomic] at hsplit
  rw [variablesAfter]
  omega

@[simp] lemma length_blocks (header : Header) : header.blocks.length = header.size := by
  rw [blocks, length_blocksOf, List.length_map, size]

lemma getElem?_blocks (hf : header.entries[column]? = some f) :
    header.blocks[column]? =
      some (if f.isAtomic then some (UInt64.ofNat (2 ^ header.variablesAfter column))
        else none) := by
  rw [blocks, getElem?_blocksOf, List.getElem?_map, hf, ← List.map_drop, count_map_isAtomic]
  rfl

lemma toNat_of_getElem?_blocks {block : UInt64} (hcount : header.atomicCount ≤ 63)
    (hblock : header.blocks[column]? = some (some block)) :
    block.toNat = 2 ^ header.variablesAfter column := by
  have hlt : column < header.entries.length := by
    rw [← size, ← length_blocks]
    exact (List.getElem?_eq_some_iff.1 hblock).1
  have hf : header.entries[column]? = some header.entries[column] := List.getElem?_eq_getElem hlt
  rw [getElem?_blocks hf] at hblock
  by_cases hatomic : header.entries[column].isAtomic
  · have hafter := variablesAfter_lt hf hatomic
    rw [if_pos hatomic] at hblock
    rw [← Option.some.inj (Option.some.inj hblock), toNat_ofNat_two_pow (hafter.le.trans hcount)]
  · simp [hatomic] at hblock

@[simp] lemma length_startRow (header : Header) (number : Nat) :
    (startRow header.blocks number).length = header.size := by
  rw [startRow, List.length_map, length_blocks]

lemma value?_startRow (hf : header.entries[column]? = some f) (hcount : header.atomicCount ≤ 63)
    (hnumber : number < 2 ^ header.atomicCount) :
    Row.value? (startRow header.blocks number) column =
      if f.isAtomic then some (number.testBit (header.variablesAfter column)) else none := by
  rw [Row.value?, startRow, List.getElem?_map, getElem?_blocks hf]
  by_cases hatomic : f.isAtomic
  · have hlt := variablesAfter_lt hf hatomic
    have hword : number < 2 ^ 64 :=
      hnumber.trans_le (Nat.pow_le_pow_right (by omega) (by omega))
    simp [hatomic, cell_eq_testBit hword (hlt.le.trans hcount)]
  · simp [hatomic]

/-- Exactly the variables have values. -/
def AssignsVariables (header : Header) (row : Row) : Prop :=
  ∀ column f, header.entries[column]? = some f → ((row.value? column).isSome ↔ f.isAtomic)

lemma AssignsVariables.isAssigned_iff (h : header.AssignsVariables row) :
    header.IsAssigned row ts ↔ header.IsVariable ts := by
  constructor
  · rintro ⟨column, f, hf, hts, hsome⟩
    exact ⟨f, List.mem_of_getElem? hf, (h column f hf).1 hsome, hts⟩
  · rintro ⟨f, hmem, hatomic, hts⟩
    obtain ⟨column, hf⟩ := List.getElem?_of_mem hmem
    exact ⟨column, f, hf, hts, (h column f hf).2 hatomic⟩

/-- So it is before any formula is evaluated. -/
lemma assignsVariables_startRow (header : Header) (number : Nat) :
    header.AssignsVariables (startRow header.blocks number) := by
  intro column f hf
  rw [Row.value?, startRow, List.getElem?_map, getElem?_blocks hf]
  by_cases hatomic : f.isAtomic <;> simp [hatomic]

lemma isAssigned_startRow_iff (header : Header) (number : Nat) :
    header.IsAssigned (startRow header.blocks number) ts ↔ header.IsVariable ts :=
  (header.assignsVariables_startRow number).isAssigned_iff

/-! ### Rows -/

lemma result_complete (hlength : row.length = header.size) :
    (header.complete row).result =
      header.entries.mapM fun f => (header.evaluate row f).result := by
  rw [complete, Logged.result_bind, Logged.result_mapEvents, result_fillAll hlength]
  cases header.entries.mapM fun f => (header.evaluate row f).result with
  | error e => rfl
  | ok values => simp

/-- The row of a number: every column has the value of its formula, evaluated from the variables
alone. -/
def IsRow (header : Header) (number : Nat) (row : List Bool) : Prop :=
  List.Forall₂
    (fun f value => (header.evaluate (startRow header.blocks number) f).result = .ok value)
    header.entries row

lemma result_complete_startRow_eq_ok_iff {row : List Bool} :
    (header.complete (startRow header.blocks number)).result = .ok row ↔
      header.IsRow number row := by
  rw [result_complete (length_startRow header number), mapM_eq_ok_iff, IsRow]

lemma IsRow.length_eq {row : List Bool} (h : header.IsRow number row) :
    row.length = header.size :=
  (List.Forall₂.length_eq h).symm

lemma length_names (header : Header) : header.names.length = header.size :=
  List.length_map _

lemma IsRow.ne_nil {row : List Bool} (h : header.IsRow number row) (hnames : header.names ≠ []) :
    row ≠ [] := by
  rwa [← List.length_pos_iff, h.length_eq, ← length_names, List.length_pos_iff]

end Header

/-! ### Tables -/

namespace Table

variable {limit : Limit} {header : Header} {table : Table}

lemma result_build (hcount : header.atomicCount ≤ limit.effective)
    (halloc : isAllocatable header.atomicCount) :
    (build limit header).result =
      ((List.range (rowCount header.atomicCount).toNat).mapM fun number =>
        (header.complete (startRow header.blocks number)).result).map (⟨header, ·⟩) := by
  rw [build]
  dsimp only
  rw [if_neg (not_lt.2 hcount), Logged.result_bind, Logged.result_emit, ok_bind, if_pos halloc,
    Logged.result_bind, Logged.result_traverse]
  cases (List.range (rowCount header.atomicCount).toNat).mapM fun number =>
    (header.complete (startRow header.blocks number)).result <;> rfl

lemma result_build_of_overflow
    (h : ¬ (header.atomicCount ≤ limit.effective ∧ isAllocatable header.atomicCount)) :
    (build limit header).result =
      .error (.tooManyVariables header.atomicCount limit.effective) := by
  rw [build]
  dsimp only
  by_cases hcount : limit.effective < header.atomicCount
  · rw [if_pos hcount, Logged.result_fail]
  · have halloc : ¬ isAllocatable header.atomicCount := fun halloc => h ⟨not_lt.1 hcount, halloc⟩
    rw [if_neg hcount, Logged.result_bind, Logged.result_emit, ok_bind, if_neg halloc,
      Logged.result_fail]

/-- A header has a table exactly if its variables are few enough and each number has a row. -/
theorem build_eq_ok_iff :
    (build limit header).result = .ok table ↔
      (header.atomicCount ≤ limit.effective ∧ isAllocatable header.atomicCount) ∧
        table.header = header ∧
        List.Forall₂ header.IsRow (List.range (2 ^ header.atomicCount)) table.rows := by
  by_cases hroom : header.atomicCount ≤ limit.effective ∧ isAllocatable header.atomicCount
  · -- there is room, and the rows are completed one by one
    have hcount : header.atomicCount ≤ 63 := hroom.1.trans (Nat.min_le_right _ _)
    rw [result_build hroom.1 hroom.2, map_eq_ok_iff, toNat_rowCount hcount]
    simp only [mapM_eq_ok_iff, Header.result_complete_startRow_eq_ok_iff]
    constructor
    · rintro ⟨rows, hrows, rfl⟩
      exact ⟨hroom, rfl, hrows⟩
    · rintro ⟨-, rfl, hrows⟩
      exact ⟨table.rows, hrows, rfl⟩
  · rw [result_build_of_overflow hroom]
    simp [hroom]

/-- The rows of a table in order. -/
lemma isRow_of_build (h : (build limit header).result = .ok table) {number : Nat}
    {row : List Bool} (hrow : table.rows[number]? = some row) :
    number < 2 ^ header.atomicCount ∧ header.IsRow number row := by
  obtain ⟨-, -, hrows⟩ := build_eq_ok_iff.1 h
  obtain ⟨number', hnumber, hisRow⟩ := getElem?_of_forall₂ hrows.flip hrow
  obtain ⟨hlt, rfl⟩ := List.getElem?_eq_some_iff.1 hnumber
  rw [List.getElem_range] at hisRow
  exact ⟨by simpa using hlt, hisRow⟩

lemma exists_isRow_of_mem (h : (build limit header).result = .ok table) {row : List Bool}
    (hmem : row ∈ table.rows) : ∃ number, header.IsRow number row := by
  obtain ⟨number, hrow⟩ := List.getElem?_of_mem hmem
  exact ⟨number, (isRow_of_build h hrow).2⟩

/-- Filling columns in any order, whether the fills succeed or not, leaves the result of every
formula as it was. A column that was tried has the value that its formula has under the first row,
if there is one, and no other column is changed, so the row depends only on which columns were
tried. Building a table therefore gives the same as evaluating every column of every row from the
variables alone. -/
theorem fillSteps_transparent (header : Header) (start : Row) (columns : List Nat) :
    (∀ f, (header.evaluate (header.fillSteps start columns) f).result =
      (header.evaluate start f).result) ∧
    (header.fillSteps start columns = start.mapIdx fun column old =>
      if column ∈ columns then (header.columnValue? start column).or old else old) ∧
    (∀ columns', (∀ column, column ∈ columns' ↔ column ∈ columns) →
      header.fillSteps start columns' = header.fillSteps start columns) ∧
    ∀ limit : Limit, header.atomicCount ≤ limit.effective → isAllocatable header.atomicCount →
      (build limit header).result =
        ((List.range (2 ^ header.atomicCount)).mapM fun number => header.entries.mapM fun f =>
          (header.evaluate (startRow header.blocks number) f).result).map (⟨header, ·⟩) := by
  refine ⟨?_, Header.fillSteps_eq header start columns, ?_, ?_⟩
  · exact ((Header.IsFilled.refl header start).fillSteps columns).result_evaluate_eq
  · -- the order of the fills
    intro columns' hmem
    simp only [Header.fillSteps_eq, hmem]
  · -- the pass from left to right
    intro limit hcount halloc
    rw [result_build hcount halloc, toNat_rowCount (hcount.trans (Nat.min_le_right _ _))]
    simp only [Header.result_complete (Header.length_startRow header _)]

end Table

end TruthTables
