import TruthTables.Proofs.Failure

/-!
# The log of a table

What is logged while a table is built: how it is begun, then the cuts of each row. They are the same
in every row, so the log of a table is its beginning and as many copies of the cuts of the first
row as there are rows. If there is no table, the work ends in the first row at the latest.
-/

namespace TruthTables

namespace Header

/-- What is logged before the first row is begun. -/
def opening (header : Header) : List Event :=
  .began header.size header.atomicCount (2 ^ header.atomicCount) :: header.blockEvents

lemma level_of_mem_blockEvents (header : Header) :
    ∀ event ∈ header.blockEvents, event.level = .debug := by
  intro event hevent
  simp only [blockEvents, List.mem_reverse, List.mem_filterMap, Option.map_eq_some_iff] at hevent
  obtain ⟨-, -, -, -, rfl⟩ := hevent
  rfl

lemma log_complete (header : Header) (row : Row) :
    (header.complete row).log = (header.fillAll row).log.map Event.cut := by
  rw [complete]
  cases h : (header.fillAll row).result with
  | ok row' =>
    rw [Logged.log_bind_of_ok (by rw [Logged.result_mapEvents, h]), Logged.log_pure,
      List.append_nil]
    rfl
  | error e =>
    rw [Logged.log_bind_of_error (by rw [Logged.result_mapEvents, h])]
    rfl

lemma level_of_mem_log_complete (header : Header) (row : Row) :
    ∀ event ∈ (header.complete row).log, event.level = .trace := by
  intro event hevent
  rw [log_complete] at hevent
  obtain ⟨cut, -, rfl⟩ := List.mem_map.1 hevent
  rfl

end Header

namespace Table

variable {limit : Limit} {header : Header} {table : Table} {e : TableError}

/-- The rows follow the opening. -/
lemma log_build (hcount : header.atomicCount ≤ limit.effective)
    (halloc : isAllocatable header.atomicCount) :
    (build limit header).log =
      header.opening ++ (Logged.traverse
        (fun number => header.complete (startRow header.blocks number))
        (List.range (2 ^ header.atomicCount))).log := by
  rw [build, Header.opening, ← toNat_rowCount (hcount.trans (Nat.min_le_right _ _))]
  dsimp only
  rw [if_neg (not_lt.2 hcount), Logged.log_bind_of_ok rfl, if_pos halloc]
  generalize Logged.traverse _ _ = rows
  congr 1
  cases h : rows.result with
  | ok rows' => rw [Logged.log_bind_of_ok h, Logged.log_pure, List.append_nil]
  | error e => rw [Logged.log_bind_of_error h]

lemma log_build_of_not_isAllocatable (hcount : header.atomicCount ≤ limit.effective)
    (halloc : ¬ isAllocatable header.atomicCount) :
    (build limit header).log = header.opening := by
  rw [build, Header.opening, ← toNat_rowCount (hcount.trans (Nat.min_le_right _ _))]
  dsimp only
  rw [if_neg (not_lt.2 hcount), Logged.log_bind_of_ok rfl, if_neg halloc]
  exact List.append_nil _

lemma log_build_of_ok (h : (build limit header).result = .ok table) :
    (build limit header).log = header.opening ++
      (List.replicate (2 ^ header.atomicCount)
        (header.complete (startRow header.blocks 0)).log).flatten := by
  obtain ⟨⟨hcount, halloc⟩, -⟩ := build_eq_ok_iff.1 h
  rw [result_build hcount halloc, ← Logged.result_traverse,
    toNat_rowCount (hcount.trans (Nat.min_le_right _ _))] at h
  obtain ⟨rows, hrows, -⟩ := map_eq_ok_iff.1 h
  have hsame : (fun number => (header.complete (startRow header.blocks number)).log) =
      fun _ => (header.complete (startRow header.blocks 0)).log :=
    funext fun number => (header.complete_startRow_alike number 0).log_eq
  rw [log_build hcount halloc, Logged.log_traverse_of_ok hrows, List.flatMap, hsame,
    List.map_const', List.length_range]

/-- If there is room for the rows but no table, the first row has failed. -/
lemma log_build_of_error (hcount : header.atomicCount ≤ limit.effective)
    (halloc : isAllocatable header.atomicCount) (h : (build limit header).result = .error e) :
    (build limit header).log =
      header.opening ++ (header.complete (startRow header.blocks 0)).log := by
  obtain ⟨n, hn⟩ := Nat.exists_eq_add_one.2 (Nat.two_pow_pos header.atomicCount)
  have hfirst := (build_eq_error_iff hcount halloc 0).1 h
  rw [log_build hcount halloc, hn, List.range_succ_eq_map, Logged.log_traverse_cons_of_error
    (f := fun number => header.complete (startRow header.blocks number)) hfirst]

/-- Evaluation goes the same way under all rows in which the same columns have values: it makes the
same cuts, and it fails in the same way or not at all. So the log of a table is its opening and the
cuts of the first row, once for each row, and if there is no table, then no cuts but those of the
first row are logged. -/
theorem log_independent_of_values :
    (∀ (header : Header) (row row' : Row), row.AssignsSame row' → ∀ f,
      (header.evaluate row f).log = (header.evaluate row' f).log ∧
      ((∃ value value', (header.evaluate row f).result = .ok value ∧
          (header.evaluate row' f).result = .ok value') ∨
        ∃ e, (header.evaluate row f).result = .error e ∧
          (header.evaluate row' f).result = .error e)) ∧
    (∀ (limit : Limit) (header : Header) (table : Table),
      (build limit header).result = .ok table →
        (build limit header).log = header.opening ++ (List.replicate (2 ^ header.atomicCount)
          (header.complete (startRow header.blocks 0)).log).flatten) ∧
    (∀ (limit : Limit) (header : Header) (e : TableError),
      (build limit header).result = .error e →
        (build limit header).log =
          if limit.effective < header.atomicCount then []
          else if isAllocatable header.atomicCount then
            header.opening ++ (header.complete (startRow header.blocks 0)).log
          else header.opening) ∧
    ∀ header : Header,
      (∀ event ∈ header.opening, event.level ≠ .trace) ∧
        ∀ event ∈ (header.complete (startRow header.blocks 0)).log, event.level = .trace := by
  refine ⟨?_, ?_, ?_, ?_⟩
  · intro header row row' hsame f
    obtain ⟨hlog, hrelated⟩ := header.evaluate_alike hsame f
    exact ⟨hlog, hrelated.both_ok_or_both_error⟩
  · intro limit header table h
    exact log_build_of_ok h
  · intro limit header e h
    split
    · -- nothing is logged before the variables are counted
      rename_i hmany
      rw [build, if_pos hmany]
      rfl
    · rename_i hcount
      split
      · -- the first row fails already
        rename_i halloc
        exact log_build_of_error (not_lt.1 hcount) halloc h
      · rename_i halloc
        exact log_build_of_not_isAllocatable (not_lt.1 hcount) halloc
  · -- only formulas that are evaluated leave traces
    intro header
    refine ⟨?_, header.level_of_mem_log_complete _⟩
    intro event hevent
    rcases List.mem_cons.1 hevent with rfl | hevent
    · simp [Event.level]
    · simp [header.level_of_mem_blockEvents event hevent]

end Table

end TruthTables
