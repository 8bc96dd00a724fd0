import TruthTables.Proofs.CommandLine.Report
import TruthTables.Proofs.Csv.Headers
import TruthTables.Proofs.Csv.Writer
import TruthTables.Proofs.Respelling

/-!
# Tables that are read back

CSV output is also input: it holds a header for each table and one for each row. Main statement:
reading gives the names of the columns, apart from blank characters around them, and the cells of
all rows, and a table with these names as columns has the same rows.
-/

namespace TruthTables

/-! ### Records as headers -/

namespace Csv

open Text

variable {s : List Char} {c : Char} {record : List String} {records : List (List String)}

/-- No field consists of blank characters only, nor is the record empty. -/
structure IsKept (record : List String) : Prop where
  ne_nil : record ≠ []
  trim_ne_nil : ∀ field ∈ record, trim field.toList ≠ []

lemma IsKept.entriesOf_eq (h : IsKept record) :
    entriesOf ((record.map String.toList).map trim) = record.map trimText := by
  have hkept : ((record.map String.toList).map trim).filter (fun text => !text.isEmpty) =
      (record.map String.toList).map trim := by
    rw [List.filter_eq_self]
    intro text htext
    rw [List.map_map, List.mem_map] at htext
    obtain ⟨field, hfield, rfl⟩ := htext
    simpa using h.trim_ne_nil field hfield
  rw [entriesOf, hkept, List.map_map, List.map_map]
  rfl

/-- Of such records nothing is lost but blank characters. -/
lemma headersOf_eq (hkept : ∀ record ∈ records, IsKept record)
    (hs : fieldsFrom .between [] [] s = records.map fun record => record.map String.toList) :
    headersOf s = records.map fun record => record.map trimText := by
  have hentries : ((fieldsFrom .between [] [] s).map fun fields => entriesOf (fields.map trim)) =
      records.map fun record => record.map trimText := by
    rw [hs, List.map_map]
    exact List.map_congr_left fun record hrecord => (hkept record hrecord).entriesOf_eq
  rw [headersOf, hentries, List.filter_eq_self]
  intro entries hmem
  obtain ⟨record, hrecord, rfl⟩ := List.mem_map.1 hmem
  simpa using (hkept record hrecord).ne_nil

end Csv

/-! ### The records of a table -/

lemma trimText_bit (value : Bool) : trimText (bit value) = bit value := by
  cases value <;> decide

lemma trim_bit_ne_nil (value : Bool) : Text.trim (bit value).toList ≠ [] := by
  cases value <;> decide

lemma trim_source_ne_nil (f : Formula) : Text.trim f.source.toList ≠ [] :=
  trim_ne_nil_of_tokenize f.source (f.tokens_eq ▸ f.ne_nil)

namespace Table

open Csv

variable {limit : Limit} {table : Table} {tables : List Table} {record : List String}

/-- The names of the columns, and the cells of each row. -/
def records (table : Table) : List (List String) :=
  table.header.names :: table.rows.map (·.map bit)

/-- There is a first column, and its name begins neither like a comment nor like a file with a byte
order mark. -/
def BeginsPlainly (table : Table) : Prop :=
  ∃ name ∈ table.header.names.head?,
    name.toList.head? ≠ some '#' ∧ name.toList.head? ≠ some '\uFEFF'

instance (table : Table) : Decidable table.BeginsPlainly :=
  inferInstanceAs (Decidable (∃ name ∈ table.header.names.head?,
    name.toList.head? ≠ some '#' ∧ name.toList.head? ≠ some '\uFEFF'))

lemma BeginsPlainly.exists_names (h : table.BeginsPlainly) :
    ∃ c s more, table.header.names = String.ofList (c :: s) :: more ∧ c ≠ '#' ∧ c ≠ '\uFEFF' := by
  obtain ⟨name, hname, hsign, hmark⟩ := h
  obtain ⟨f, -, rfl⟩ := List.mem_map.1 (List.mem_of_mem_head? hname)
  have hnames := List.eq_cons_of_mem_head? hname
  cases hs : f.source.toList with
  | nil => exact absurd (by rw [hs]; rfl) (trim_source_ne_nil f)
  | cons c s =>
    rw [hs] at hsign hmark
    refine ⟨c, s, table.header.names.tail, ?_, by simpa using hsign, by simpa using hmark⟩
    rw [← hs, String.ofList_toList]
    exact hnames

lemma beginsPlainly_record (hbuild : (build limit table.header).result = .ok table)
    (h : table.BeginsPlainly) : ∀ record ∈ table.records, Csv.BeginsPlainly record := by
  obtain ⟨c, s, more, hnames, hsign, -⟩ := h.exists_names
  refine List.forall_mem_cons.2 ⟨⟨c, s, more, hnames, hsign⟩, List.forall_mem_map.2 ?_⟩
  intro row hmem
  obtain ⟨number, hisRow⟩ := exists_isRow_of_mem hbuild hmem
  cases row with
  | nil => exact absurd rfl (hisRow.ne_nil (by simp [hnames]))
  | cons value row =>
    cases value
    · exact ⟨'0', [], row.map bit, rfl, by decide⟩
    · exact ⟨'1', [], row.map bit, rfl, by decide⟩

lemma isKept_record (hbuild : (build limit table.header).result = .ok table)
    (h : table.BeginsPlainly) (hmem : record ∈ table.records) : IsKept record where
  ne_nil := by
    obtain ⟨c, s, more, rfl, -⟩ := beginsPlainly_record hbuild h record hmem
    exact List.cons_ne_nil _ _
  trim_ne_nil := by
    rcases List.mem_cons.1 hmem with rfl | hrow
    · exact List.forall_mem_map.2 fun f _ => trim_source_ne_nil f
    · obtain ⟨row, -, rfl⟩ := List.mem_map.1 hrow
      exact List.forall_mem_map.2 fun value _ => trim_bit_ne_nil value

/-- The text of a table is not empty and does not begin with a byte order mark. -/
lemma exists_csv_eq_cons (h : table.BeginsPlainly) :
    ∃ d t, table.csv.toList = d :: t ∧ d ≠ '\uFEFF' := by
  obtain ⟨c, s, more, hnames, -, hmark⟩ := h.exists_names
  obtain ⟨d, t, hrecord, hd⟩ := exists_writeRecord_eq_cons c s more
  refine ⟨d, t ++ '\n' :: (write (table.rows.map (·.map bit))).toList, ?_, ?_⟩
  · rw [csv, toList_write_cons, hnames, hrecord, List.cons_append]
  · rcases hd with rfl | rfl
    · decide
    · exact hmark

/-! ### Several tables -/

/-- The reader finds the records of all tables. The line feed between two tables is an empty line
and no record. -/
lemma fieldsFrom_intercalate_csv
    (h : ∀ table ∈ tables, ∀ record ∈ table.records, Csv.BeginsPlainly record) :
    fieldsFrom .between [] [] ("\n".intercalate (tables.map csv)).toList =
      (tables.flatMap records).map fun record => record.map String.toList := by
  have hskip : Mode.between.action (Symbol.mark '\n') = .skip .between := rfl
  induction tables with
  | nil => rfl
  | cons table tables ih =>
    obtain ⟨htable, htables⟩ := List.forall_mem_cons.1 h
    have hcsv : ∀ rest, fieldsFrom .between [] [] (table.csv.toList ++ rest) =
        table.records.map (fun record => record.map String.toList) ++
          fieldsFrom .between [] [] rest := fun rest => fieldsFrom_write htable rest
    cases tables with
    | nil =>
      rw [List.map_singleton, String.intercalate_singleton, ← List.append_nil table.csv.toList,
        hcsv]
      simp [fieldsFrom, Mode.isInRecord]
    | cons table' tables =>
      have hlist : ("\n".intercalate ((table :: table' :: tables).map csv)).toList =
          table.csv.toList ++ '\n' :: ("\n".intercalate ((table' :: tables).map csv)).toList := by
        simp
      rw [hlist, hcsv, fieldsFrom_of_skip hskip, ih htables, ← List.map_append]
      rfl

lemma head?_intercalate_csv (h : ∀ table ∈ tables, table.BeginsPlainly) :
    ("\n".intercalate (tables.map csv)).toList.head? ≠ some '\uFEFF' := by
  cases tables with
  | nil => simp
  | cons table tables =>
    obtain ⟨d, t, hcsv, hmark⟩ := exists_csv_eq_cons (h table List.mem_cons_self)
    cases tables with
    | nil => simpa [hcsv] using hmark
    | cons table' tables =>
      rw [List.map_cons, List.map_cons, String.intercalate_cons_cons, String.append_assoc,
        String.toList_append, hcsv]
      simpa using hmark

/-- Of the names of the columns blank characters at the ends are lost, and of the rows nothing. -/
lemma map_trimText_records (table : Table) :
    table.records.map (fun record => record.map trimText) =
      table.header.names.map trimText :: table.rows.map (·.map bit) := by
  rw [records, List.map_cons, List.map_map]
  refine congrArg (table.header.names.map trimText :: ·) (List.map_congr_left fun row _ => ?_)
  rw [Function.comp_apply, List.map_map]
  exact List.map_congr_left fun value _ => trimText_bit value

end Table

namespace CommandLine.Report

/-- The CSV text of tables is read as the headers with the names of their columns, each followed by
the cells of its rows, and the tables of these headers have the same rows. -/
theorem readHeaders_text (report : Report)
    (hbuild : ∀ table ∈ report.tables, ∃ limit,
      (Table.build limit table.header).result = .ok table)
    (hplain : ∀ table ∈ report.tables, table.BeginsPlainly) :
    Csv.readHeaders (Text.encode (report.text .csv).toList) =
        .ok (report.tables.flatMap fun table =>
          table.header.names.map trimText :: table.rows.map (·.map bit)) ∧
      ∀ table ∈ report.tables, ∀ limit, (Table.build limit table.header).result = .ok table →
        ∃ table', (Table.ofTexts limit (table.header.names.map trimText)).result = .ok table' ∧
          table'.rows = table.rows := by
  have hrecords : ∀ table ∈ report.tables, ∀ record ∈ table.records, Csv.BeginsPlainly record := by
    intro table htable
    obtain ⟨limit, htable'⟩ := hbuild table htable
    exact Table.beginsPlainly_record htable' (hplain table htable)
  have hkept : ∀ record ∈ report.tables.flatMap Table.records, Csv.IsKept record := by
    intro record hrecord
    obtain ⟨table, htable, hmem⟩ := List.mem_flatMap.1 hrecord
    obtain ⟨limit, htable'⟩ := hbuild table htable
    exact Table.isKept_record htable' (hplain table htable) hmem
  constructor
  · show Csv.readHeaders (Text.encode ("\n".intercalate (report.tables.map Table.csv)).toList) = _
    rw [Csv.readHeaders_encode (Table.head?_intercalate_csv hplain),
      Csv.headersOf_eq hkept (Table.fieldsFrom_intercalate_csv hrecords), List.map_flatMap]
    simp only [Table.map_trimText_records]
  · intro table _ limit htable
    exact Table.exists_ofTexts_trimText htable

/-- Names with commas, quotes, line feeds and blank characters at their ends. -/
def quotedReport : Report where
  tables :=
    [{ header := ((Header.ofTexts [" p,1", "\x22q\x22", "p,1 &\n\x22q\x22 "]).toOption).getD
        Header.empty
       rows := [[false, false, false], [false, true, false], [true, false, false],
        [true, true, true]] },
     { header := ((Header.ofTexts ["r\r\n", "! r"]).toOption).getD Header.empty
       rows := [[false, true], [true, false]] }]
  failure := none
  log := []

/-- What is read back of them. -/
def quotedHeaders : List (List String) :=
  [["p,1", "\x22q\x22", "p,1 &\n\x22q\x22"], ["0", "0", "0"], ["0", "1", "0"], ["1", "0", "0"],
    ["1", "1", "1"], ["r", "! r"], ["0", "1"], ["1", "0"]]

theorem quotedReport_readHeaders :
    (∀ table ∈ quotedReport.tables, ∃ limit,
      (Table.build limit table.header).result = .ok table) ∧
      (∀ table ∈ quotedReport.tables, table.BeginsPlainly) ∧
      Csv.readHeaders (Text.encode (quotedReport.text .csv).toList) = .ok quotedHeaders ∧
      ∀ table ∈ quotedReport.tables, ∃ table',
        (Table.ofTexts {} (table.header.names.map trimText)).result = .ok table' ∧
          table'.rows = table.rows := by
  have hbuild : ∀ table ∈ quotedReport.tables,
      (Table.build {} table.header).result = .ok table := by
    decide +kernel
  have hbuild' : ∀ table ∈ quotedReport.tables, ∃ limit,
      (Table.build limit table.header).result = .ok table :=
    fun table htable => ⟨{}, hbuild table htable⟩
  have hplain : ∀ table ∈ quotedReport.tables, table.BeginsPlainly := by decide +kernel
  obtain ⟨hread, hagain⟩ := readHeaders_text quotedReport hbuild' hplain
  have htexts : (quotedReport.tables.flatMap fun table =>
      table.header.names.map trimText :: table.rows.map (·.map bit)) = quotedHeaders := by
    decide +kernel
  exact ⟨hbuild', hplain, htexts ▸ hread, fun table htable =>
    hagain table htable {} (hbuild table htable)⟩

end CommandLine.Report

end TruthTables
