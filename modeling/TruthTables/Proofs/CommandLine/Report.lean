import TruthTables.CommandLine.Files
import TruthTables.Proofs.Failure
import TruthTables.Proofs.Header
import TruthTables.Proofs.Render

/-!
# Reports of several tables

What the work on some headers comes to, without the work: the tables of the longest part at the
beginning of the headers in which all have tables. What comes behind the first header without one is
not looked at.
-/

namespace TruthTables.CommandLine

structure Report where
  tables : List Table
  failure : Option Failure
  log : List Event

namespace Report

/-- The tables of some headers, whose entries are given. -/
def ofHeaders (limit : Limit) : List (List String) → Report
  | [] => ⟨[], none, []⟩
  | entries :: rest =>
    let table := Table.ofTexts limit entries
    match table.result with
    | .error e => ⟨[], some (.unbuilt entries e), table.log⟩
    | .ok t =>
      let report := ofHeaders limit rest
      ⟨t :: report.tables, report.failure, table.log ++ report.log⟩

/-- The text of the tables, with an empty line between any two. -/
def text (report : Report) (format : Format) : String :=
  "\n".intercalate (report.tables.map fun table => table.render format)

/-- How the work ends. -/
def result (report : Report) : Except Failure Unit :=
  match report.failure with
  | none => .ok ()
  | some failure => .error failure

variable {limit : Limit} {headers good rest more more' : List (List String)} {entries : List String}
  {table : Table} {tables : List Table} {e : TableError}

/-- The longest part at the beginning of some headers in which all have tables, and these tables. -/
structure IsGoodPart (limit : Limit) (headers good rest : List (List String))
    (tables : List Table) : Prop where
  append_eq : headers = good ++ rest
  tables_eq : List.Forall₂
    (fun entries table => (Table.ofTexts limit entries).result = .ok table) good tables
  error_of_rest (entries : List String) (more : List (List String)) : rest = entries :: more →
    ∃ e, (Table.ofTexts limit entries).result = .error e

/-- There is only one such part. -/
lemma IsGoodPart.unique {good' rest' : List (List String)} {tables' : List Table}
    (h : IsGoodPart limit headers good rest tables)
    (h' : IsGoodPart limit headers good' rest' tables') :
    good = good' ∧ rest = rest' ∧ tables = tables' := by
  obtain ⟨happend, htables, herror⟩ := h
  obtain ⟨happend', htables', herror'⟩ := h'
  induction htables generalizing headers good' tables' with
  | nil =>
    cases htables' with
    | nil => exact ⟨rfl, happend.symm.trans happend', rfl⟩
    | cons hok _ =>
      -- the first header has a table and would have none
      obtain ⟨e, he⟩ := herror _ _ (happend.symm.trans happend')
      rw [hok] at he
      cases he
  | cons hok _ ih =>
    cases htables' with
    | nil =>
      obtain ⟨e, he⟩ := herror' _ _ (happend'.symm.trans happend)
      rw [hok] at he
      cases he
    | cons hok' htables' =>
      obtain ⟨rfl, hmore⟩ := List.cons.inj (happend.symm.trans happend')
      obtain rfl := Except.ok.inj (hok.symm.trans hok')
      obtain ⟨rfl, hrest, rfl⟩ := ih rfl hmore htables'
      exact ⟨rfl, hrest, rfl⟩

lemma ofHeaders_of_ok (h : (Table.ofTexts limit entries).result = .ok table)
    (more : List (List String)) :
    ofHeaders limit (entries :: more) =
      ⟨table :: (ofHeaders limit more).tables, (ofHeaders limit more).failure,
        (Table.ofTexts limit entries).log ++ (ofHeaders limit more).log⟩ := by
  rw [ofHeaders]
  simp only [h]

lemma ofHeaders_of_error (h : (Table.ofTexts limit entries).result = .error e)
    (more : List (List String)) :
    ofHeaders limit (entries :: more) =
      ⟨[], some (.unbuilt entries e), (Table.ofTexts limit entries).log⟩ := by
  rw [ofHeaders]
  simp only [h]

/-- What comes behind the first header without a table does not matter. -/
lemma ofHeaders_append_of_error (h : (Table.ofTexts limit entries).result = .error e)
    (good more more' : List (List String)) :
    ofHeaders limit (good ++ entries :: more) = ofHeaders limit (good ++ entries :: more') := by
  induction good with
  | nil => rw [List.nil_append, List.nil_append, ofHeaders_of_error h, ofHeaders_of_error h]
  | cons entries' good ih =>
    rw [List.cons_append, List.cons_append]
    cases hresult : (Table.ofTexts limit entries').result with
    | ok table => rw [ofHeaders_of_ok hresult, ofHeaders_of_ok hresult, ih]
    | error e' => rw [ofHeaders_of_error hresult, ofHeaders_of_error hresult]

lemma failure_eq_none_iff :
    (ofHeaders limit headers).failure = none ↔
      ∀ entries ∈ headers, ∃ table, (Table.ofTexts limit entries).result = .ok table := by
  induction headers with
  | nil => simp [ofHeaders]
  | cons entries headers ih =>
    rw [List.forall_mem_cons, ← ih]
    cases hresult : (Table.ofTexts limit entries).result with
    | ok table => simp [ofHeaders_of_ok hresult]
    | error e => simp [ofHeaders_of_error hresult]

/-- The tables of a report are those of such a part, and its failure is that of the header behind
it. -/
theorem exists_isGoodPart (limit : Limit) (headers : List (List String)) :
    ∃ good rest, IsGoodPart limit headers good rest (ofHeaders limit headers).tables ∧
      (rest = [] ∧ (ofHeaders limit headers).failure = none ∨
        ∃ entries more e, rest = entries :: more ∧
          (Table.ofTexts limit entries).result = .error e ∧
          (ofHeaders limit headers).failure = some (.unbuilt entries e)) := by
  induction headers with
  | nil => exact ⟨[], [], ⟨rfl, .nil, by simp⟩, Or.inl ⟨rfl, rfl⟩⟩
  | cons entries headers ih =>
    cases hresult : (Table.ofTexts limit entries).result with
    | ok table =>
      obtain ⟨good, rest, hpart, hfailure⟩ := ih
      rw [ofHeaders_of_ok hresult]
      refine ⟨entries :: good, rest, ⟨?_, .cons hresult hpart.tables_eq, hpart.error_of_rest⟩,
        hfailure⟩
      rw [List.cons_append, ← hpart.append_eq]
    | error e =>
      rw [ofHeaders_of_error hresult]
      refine ⟨[], entries :: headers, ⟨rfl, .nil, ?_⟩,
        Or.inr ⟨entries, headers, e, rfl, hresult, rfl⟩⟩
      rintro _ _ ⟨⟩
      exact ⟨e, hresult⟩

/-- Headers whose columns have visible beginnings make up blocks of lines. -/
lemma isBlock_render_of_mem (hpart : IsGoodPart limit headers good rest tables)
    (hheaders : ∀ entries ∈ headers, entries ≠ [] ∧ ∀ entry ∈ entries, Text.BeginsVisibly entry)
    (format : Format) (hmem : table ∈ tables) : Text.IsBlock (table.render format) := by
  obtain ⟨i, hi⟩ := List.getElem?_of_mem hmem
  obtain ⟨entries, hentries, hbuild⟩ := getElem?_of_forall₂ hpart.tables_eq.flip hi
  have hmem' : entries ∈ headers := by
    rw [hpart.append_eq]
    exact List.mem_append_left _ (List.mem_of_getElem? hentries)
  obtain ⟨hne, hvisible⟩ := hheaders entries hmem'
  cases hheader : Header.ofTexts entries with
  | error e =>
    rw [Table.result_ofTexts_of_error hheader] at hbuild
    cases hbuild
  | ok header =>
    rw [Table.result_ofTexts hheader] at hbuild
    have hnames := Header.ofTexts_eq_ok_iff.1 hheader
    obtain rfl : table.header = header := (Table.build_eq_ok_iff.1 hbuild).2.1
    cases entries with
    | nil => contradiction
    | cons name more =>
      exact Table.isBlock_render hbuild hnames (hvisible name List.mem_cons_self) format

end Report

end TruthTables.CommandLine
