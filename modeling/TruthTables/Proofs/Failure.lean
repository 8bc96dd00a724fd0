import TruthTables.Proofs.Alike

/-!
# Failures of a table

What a table fails with: the failure of its header, too many variables, or else the failure of the
leftmost column whose formula has no value under the variables. The last of these is found in every
row alike, so it depends neither on the values of the variables nor on what was filled before.
-/

namespace TruthTables

/-- The list of all rows can be asked for up to 58 variables. -/
lemma isAllocatable_iff {count : Nat} (h : count ≤ 63) : isAllocatable count ↔ count < 59 := by
  have hbytes : isAllocatable count ↔ 2 ^ count * 24 < 2 ^ 63 := by
    rw [isAllocatable, toNat_rowCount h, decide_eq_true_iff]
    rfl
  rw [hbytes]
  constructor
  · intro hlt
    by_contra hle
    have hpow : 2 ^ 59 ≤ 2 ^ count := Nat.pow_le_pow_right (by omega) (not_lt.1 hle)
    omega
  · intro hlt
    have hpow : 2 ^ count ≤ 2 ^ 58 := Nat.pow_le_pow_right (by omega) (by omega)
    omega

namespace Header

variable {header : Header} {row row' : Row} {f : Formula} {number number' : Nat} {e : TableError}

/-- The leftmost column whose formula has no value fails with `e`, which names the text of that
column; the column is no variable. -/
def FailsFirst (header : Header) (row : Row) (e : TableError) : Prop :=
  ∃ before f after, header.entries = before ++ f :: after ∧ f.isAtomic = false ∧
    (∀ g ∈ before, ∃ value, (header.evaluate row g).result = .ok value) ∧
      (header.evaluate row f).result = .error e ∧ ∃ fault : Fault, e = fault.inFormula f.source

/-- The column at `i` is the first without a value. -/
def FailsAt (header : Header) (row : Row) (i : Nat) (e : TableError) : Prop :=
  ∃ f, header.entries[i]? = some f ∧
    (∀ g ∈ header.entries.take i, ∃ value, (header.evaluate row g).result = .ok value) ∧
      (header.evaluate row f).result = .error e

lemma exists_inFormula (h : (header.evaluate row f).result = .error e) :
    ∃ fault : Fault, e = fault.inFormula f.source := by
  rw [result_evaluate, mapError_eq_error_iff] at h
  obtain ⟨fault, -, rfl⟩ := h
  exact ⟨fault, rfl⟩

/-- A variable has the value that it has in the row. -/
lemma AssignsVariables.exists_ok (h : header.AssignsVariables row) (hf : f ∈ header.entries)
    (hatomic : f.isAtomic) : ∃ value, (header.evaluate row f).result = .ok value := by
  obtain ⟨column, hcolumn⟩ := List.getElem?_of_mem hf
  obtain ⟨value, hvalue⟩ := Option.isSome_iff_exists.1 ((h column f hcolumn).2 hatomic)
  exact ⟨value, result_evaluate_of_value? hcolumn hvalue⟩

lemma failsFirst_iff (h : header.AssignsVariables row) :
    header.FailsFirst row e ↔
      (header.entries.mapM fun f => (header.evaluate row f).result) = .error e := by
  rw [mapM_eq_error_iff]
  constructor
  · rintro ⟨before, f, after, hentries, -, hbefore, he, -⟩
    exact ⟨before, f, after, hentries, hbefore, he⟩
  · rintro ⟨before, f, after, hentries, hbefore, he⟩
    refine ⟨before, f, after, hentries, ?_, hbefore, he, exists_inFormula he⟩
    -- variables have values, so what fails is a compound formula
    by_contra hatomic
    have hf : f ∈ header.entries := by simp [hentries]
    obtain ⟨value, hvalue⟩ := h.exists_ok hf (by simpa using hatomic)
    rw [hvalue] at he
    cases he

/-- The values of the variables do not matter. -/
lemma FailsFirst.congr (h : header.AssignsVariables row) (h' : header.AssignsVariables row')
    (hfails : header.FailsFirst row e) : header.FailsFirst row' e := by
  have hrelated : ∀ f, Related _ (header.evaluate row f).result (header.evaluate row' f).result :=
    fun f => (evaluate_alike_of_assignsVariables h h' (fun _ => Iff.rfl) f).related
  obtain ⟨before, f, after, hentries, hatomic, hbefore, he, hfault⟩ := hfails
  refine ⟨before, f, after, hentries, hatomic, fun g hg => ?_, ?_, hfault⟩
  · exact (hrelated g).exists_ok_iff.1 (hbefore g hg)
  · exact ((hrelated f).eq_error_iff e).1 he

lemma result_complete_startRow_eq_error_iff (h : header.AssignsVariables row) (number : Nat) :
    (header.complete (startRow header.blocks number)).result = .error e ↔
      header.FailsFirst row e := by
  have hstart := header.assignsVariables_startRow number
  rw [result_complete (length_startRow header number), ← failsFirst_iff hstart]
  exact ⟨.congr hstart h, .congr h hstart⟩

end Header

namespace Table

variable {limit : Limit} {header : Header} {row : Row} {entries : List String} {e : TableError}

lemma result_ofTexts (h : Header.ofTexts entries = .ok header) :
    (ofTexts limit entries).result = (build limit header).result := by
  rw [ofTexts, Logged.result_bind, Logged.result_ofExcept, h, ok_bind]

lemma result_ofTexts_of_error (h : Header.ofTexts entries = .error e) :
    (ofTexts limit entries).result = .error e := by
  rw [ofTexts, Logged.result_bind, Logged.result_ofExcept, h, error_bind]

/-- A table fails as each of its rows does. -/
lemma build_eq_error_iff (hcount : header.atomicCount ≤ limit.effective)
    (halloc : isAllocatable header.atomicCount) (number : Nat) :
    (build limit header).result = .error e ↔
      (header.complete (startRow header.blocks number)).result = .error e := by
  have hrelated := fun number' =>
    ((header.complete_startRow_alike number' number).related.eq_error_iff e)
  have hmap : ∀ x : Except TableError (List (List Bool)),
      x.map (Table.mk header) = .error e ↔ x = .error e := by
    intro x
    cases x <;> simp
  rw [result_build hcount halloc, hmap, mapM_eq_error_iff]
  constructor
  · -- all rows fail alike, so the row that fails may be taken to be any other
    rintro ⟨before, number', after, -, -, he⟩
    exact (hrelated number').1 he
  · -- the first row is completed before all others
    intro he
    have hpos : 0 < (rowCount header.atomicCount).toNat := by
      rw [toNat_rowCount (hcount.trans (Nat.min_le_right _ _))]
      exact Nat.two_pow_pos _
    obtain ⟨n, hn⟩ := Nat.exists_eq_add_one.2 hpos
    refine ⟨[], 0, (List.range n).map Nat.succ, ?_, by simp, (hrelated 0).2 he⟩
    rw [hn, List.range_succ_eq_map, List.nil_append]

/-- Where there is room for the rows, a table fails as the first column without a value. -/
lemma build_eq_error_iff_failsAt (hcount : header.atomicCount ≤ limit.effective)
    (halloc : isAllocatable header.atomicCount) :
    (build limit header).result = .error e ↔
      ∃ i, header.FailsAt (startRow header.blocks 0) i e := by
  rw [build_eq_error_iff hcount halloc 0, Header.result_complete (Header.length_startRow header 0),
    mapM_eq_error_iff_getElem?]
  rfl

/-- If there is room for the rows, a header has a table exactly if each column has a value under the
variables. -/
lemma exists_build_iff (hcount : header.atomicCount ≤ limit.effective)
    (halloc : isAllocatable header.atomicCount) (h : header.AssignsVariables row) :
    (∃ table, (build limit header).result = .ok table) ↔
      ∀ f ∈ header.entries, f.isAtomic = false →
        ∃ value, (header.evaluate row f).result = .ok value := by
  have hvariables : (∀ f ∈ header.entries, ∃ value, (header.evaluate row f).result = .ok value) ↔
      ∀ f ∈ header.entries, f.isAtomic = false →
        ∃ value, (header.evaluate row f).result = .ok value := by
    refine forall₂_congr fun f hf => ⟨fun hvalue _ => hvalue, fun hvalue => ?_⟩
    cases hatomic : f.isAtomic with
    | true => exact h.exists_ok hf hatomic
    | false => exact hvalue hatomic
  rw [← hvariables, ← exists_mapM_eq_ok_iff, exists_ok_iff_forall_ne_error,
    exists_ok_iff_forall_ne_error]
  simp only [ne_eq, build_eq_error_iff hcount halloc 0,
    Header.result_complete_startRow_eq_error_iff h, Header.failsFirst_iff h]

example : (ofTexts {} ["p", "p => p", "p |", "& p"]).result =
    .error (.malformedFormula "p |" .missingOperand) := by
  decide +kernel

end Table

end TruthTables
