import Mathlib.Data.List.Induction
import TruthTables.Proofs.Logged
import TruthTables.Proofs.Lookup
import TruthTables.Table

/-!
# Filling columns

Columns of a row are filled one after the other with the values of their formulas, each under the
row that the earlier fills left. A formula that holds the tokens of a filled column then has that
column looked up instead of taken apart. Main statement: this changes no result of any evaluation,
so neither the order of the fills matters nor which of them fail.
-/

namespace TruthTables

variable {header : Header} {start row : Row} {column column' : Nat} {f : Formula} {value : Bool}

/-! ### Values of a row -/

lemma Row.value?_set (row : Row) (column column' : Nat) (value : Bool) :
    Row.value? (row.set column (some value)) column' =
      if column = column' ∧ column < row.length then some value else row.value? column' := by
  rw [Row.value?, Row.value?, List.getElem?_set]
  by_cases hcol : column = column'
  · by_cases hlt : column < row.length
    · simp [hlt, ← hcol]
    · simp [hlt, ← hcol]
  · simp [hcol]

lemma Row.set_of_value? (h : row.value? column = some value) :
    row.set column (some value) = row := by
  rw [Row.value?, Option.join_eq_some_iff] at h
  obtain ⟨hlt, hget⟩ := List.getElem?_eq_some_iff.1 h
  rw [← hget, List.set_getElem_self]

namespace Header

/-! ### Fills -/

/-- The value that the formula of a column has under a row, if it has one. -/
def columnValue? (header : Header) (row : Row) (column : Nat) : Option Bool :=
  header.entries[column]?.bind fun f => (header.evaluate row f).result.toOption

/-- Tries to fill a column. If that fails, the row stays as it is. -/
def fillStep (header : Header) (row : Row) (column : Nat) : Row :=
  match header.entries[column]? with
  | some f => ((header.fill row column f).result.toOption).getD row
  | none => row

/-- Tries to fill columns one after the other. -/
def fillSteps (header : Header) (row : Row) (columns : List Nat) : Row :=
  columns.foldl header.fillStep row

lemma result_fill (header : Header) (row : Row) (column : Nat) (f : Formula) :
    (header.fill row column f).result =
      (header.evaluate row f).result.map fun value => row.set column (some value) := by
  rw [fill, Logged.result_bind]
  cases (header.evaluate row f).result <;> rfl

lemma fillStep_eq (header : Header) (row : Row) (column : Nat) :
    header.fillStep row column =
      match header.columnValue? row column with
      | some value => row.set column (some value)
      | none => row := by
  unfold fillStep columnValue?
  cases header.entries[column]? with
  | none => rfl
  | some f =>
    simp only [result_fill, Option.bind_some]
    cases (header.evaluate row f).result <;> rfl

/-! ### What fills keep -/

/-- What fills make of the row `start`: each column has the value it had, or the one that its
formula has under `start`. -/
structure IsFilled (header : Header) (start row : Row) : Prop where
  length_eq : row.length = start.length
  value?_eq (column : Nat) : row.value? column = start.value? column ∨
    ∃ f value, header.entries[column]? = some f ∧ row.value? column = some value ∧
      (header.evaluate start f).result = .ok value

namespace IsFilled

lemma refl (header : Header) (start : Row) : header.IsFilled start start where
  length_eq := rfl
  value?_eq _ := Or.inl rfl

lemma stores (h : header.IsFilled start row) :
    Stores (header.lookup start) (header.lookup row) := by
  intro ts
  cases hpos : header.position? ts with
  | none =>
    left
    rw [lookup, lookup, hpos]
    rfl
  | some column =>
    rw [lookup, lookup, hpos, Option.bind_some, Option.bind_some]
    obtain ⟨f, hf, rfl⟩ := position?_eq_some_iff.1 hpos
    refine (h.value?_eq column).imp_right ?_
    rintro ⟨g, value, hg, hvalue, hresult⟩
    obtain rfl : f = g := Option.some.inj (hf.symm.trans hg)
    refine ⟨value, hvalue, ?_⟩
    rwa [result_evaluate, mapError_eq_ok_iff] at hresult

/-- Fills change no result. -/
theorem result_evaluate_eq (h : header.IsFilled start row) (f : Formula) :
    (header.evaluate row f).result = (header.evaluate start f).result := by
  rw [result_evaluate, result_evaluate, h.stores.result_eq]

lemma columnValue?_eq (h : header.IsFilled start row) (column : Nat) :
    header.columnValue? row column = header.columnValue? start column := by
  simp only [columnValue?, h.result_evaluate_eq]

/-- One more column is filled. -/
lemma set (h : header.IsFilled start row) (hf : header.entries[column]? = some f)
    (hvalue : (header.evaluate row f).result = .ok value) :
    header.IsFilled start (row.set column (some value)) where
  length_eq := by rw [List.length_set, h.length_eq]
  value?_eq column' := by
    rw [Row.value?_set]
    split
    · rename_i hcol
      obtain ⟨rfl, -⟩ := hcol
      exact Or.inr ⟨f, value, hf, rfl, by rw [← h.result_evaluate_eq, hvalue]⟩
    · exact h.value?_eq column'

lemma fillStep (h : header.IsFilled start row) (column : Nat) :
    header.IsFilled start (header.fillStep row column) := by
  rw [fillStep_eq]
  cases hvalue : header.columnValue? row column with
  | none => exact h
  | some value =>
    obtain ⟨f, hf, hresult⟩ := Option.bind_eq_some_iff.1 hvalue
    refine h.set hf ?_
    cases hr : (header.evaluate row f).result with
    | error e => simp [hr, Except.toOption] at hresult
    | ok value' =>
      rw [hr] at hresult
      rw [Option.some.inj hresult]

lemma fillSteps (h : header.IsFilled start row) (columns : List Nat) :
    header.IsFilled start (header.fillSteps row columns) := by
  induction columns generalizing row with
  | nil => exact h
  | cons column columns ih => exact ih (h.fillStep column)

end IsFilled

lemma fillSteps_concat (header : Header) (row : Row) (columns : List Nat) (column : Nat) :
    header.fillSteps row (columns ++ [column]) =
      header.fillStep (header.fillSteps row columns) column := by
  rw [fillSteps, List.foldl_append]
  rfl

/-- After any fills a column that was tried has the value of its formula under the first row, if
that has one, and any other column is as it was. -/
theorem fillSteps_eq (header : Header) (start : Row) (columns : List Nat) :
    header.fillSteps start columns =
      start.mapIdx fun column old =>
        if column ∈ columns then (header.columnValue? start column).or old else old := by
  induction columns using List.reverseRecOn with
  | nil =>
    refine List.ext_getElem? fun c => ?_
    simp [fillSteps]
  | append_singleton columns column ih =>
    have hfilled := (IsFilled.refl header start).fillSteps columns
    rw [fillSteps_concat, fillStep_eq, hfilled.columnValue?_eq, ih]
    refine List.ext_getElem? fun c => ?_
    cases hvalue : header.columnValue? start column with
    | none =>
      simp only [List.getElem?_mapIdx]
      by_cases hc : c = column
      · subst hc
        simp [hvalue]
      · simp [hc]
    | some value =>
      simp only [List.getElem?_mapIdx, List.getElem?_set]
      by_cases hc : column = c
      · subst hc
        by_cases hlt : column < start.length <;> simp [hvalue, hlt]
      · simp [hc, Ne.symm hc]

/-! ### Filling all columns -/

/-- The formula of a column that has a value has the same value. -/
lemma result_evaluate_of_value? (hf : header.entries[column]? = some f)
    (h : row.value? column = some value) : (header.evaluate row f).result = .ok value := by
  have hlook : header.lookup row f.tokens = some value := by rw [lookup_of_getElem? hf, h]
  rw [result_evaluate, result_evaluate_of_look hlook, mapError_ok]

lemma result_fillFrom_cons (hf : header.entries[column]? = some f) (entries : List Formula) :
    (header.fillFrom column (f :: entries) row).result =
      (header.evaluate row f).result >>= fun value =>
        (header.fillFrom (column + 1) entries (row.set column (some value))).result := by
  rw [fillFrom]
  cases h : row.value? column with
  | none =>
    rw [Option.isNone_none, if_pos rfl, Logged.result_bind, result_fill]
    cases (header.evaluate row f).result <;> rfl
  | some value =>
    -- the column is skipped, but its formula has the value that is there
    rw [result_evaluate_of_value? hf h, ok_bind, Row.set_of_value? h]
    simp

lemma result_fillFrom (hfilled : header.IsFilled start row) (hlength : row.length = header.size) :
    (header.fillFrom column (header.entries.drop column) row).result =
      ((header.entries.drop column).mapM fun f => (header.evaluate start f).result).map
        fun values => row.take column ++ values.map some := by
  generalize hentries : header.entries.drop column = entries
  induction entries generalizing column row with
  | nil =>
    have hle : header.size ≤ column := List.drop_eq_nil_iff.1 hentries
    rw [List.take_of_length_le (hlength.le.trans hle)]
    simp [fillFrom, pure, Except.pure]
  | cons f entries ih =>
    have hf : header.entries[column]? = some f := by
      rw [← List.head?_drop, hentries, List.head?_cons]
    have hrest : header.entries.drop (column + 1) = entries := by
      rw [← List.tail_drop, hentries, List.tail_cons]
    have hlt : column < row.length := by
      rw [hlength]
      exact (List.getElem?_eq_some_iff.1 hf).1
    rw [result_fillFrom_cons hf, List.mapM_cons, ← hfilled.result_evaluate_eq]
    cases hvalue : (header.evaluate row f).result with
    | error e => rfl
    | ok value =>
      have hset := ih (hfilled.set hf hvalue) (by rw [List.length_set, hlength]) hrest
      rw [ok_bind, ok_bind, hset]
      cases entries.mapM fun f => (header.evaluate start f).result with
      | error e => rfl
      | ok values =>
        simp only [ok_bind, map_ok, pure, Except.pure]
        rw [List.take_succ_eq_append_getElem (by simpa using hlt), List.take_set_of_le le_rfl]
        simp

/-- Filling the columns from left to right gives each of them what its formula has under the row
before. -/
theorem result_fillAll (hlength : row.length = header.size) :
    (header.fillAll row).result =
      (header.entries.mapM fun f => (header.evaluate row f).result).map (·.map some) := by
  have h : (header.fillFrom 0 (header.entries.drop 0) row).result = _ :=
    result_fillFrom (IsFilled.refl header row) hlength
  simpa [fillAll] using h

end Header

end TruthTables
