import TruthTables.Proofs.Csv.Writer
import TruthTables.Proofs.Blank
import TruthTables.Proofs.Enumeration
import TruthTables.Table.Render

/-!
# Rendered tables

Whatever the format is, the text of a table whose first column has a visible beginning is a block of
lines: it begins with none that is empty and ends with none that is empty or not ended. So it is
clear from the text of several tables, with empty lines between them, where one ends.
-/

namespace TruthTables

/-! ### Blocks of lines -/

namespace Text

variable {first last text sep : String} {texts : List String} {c : Char}

/-- The first line is not empty. The last one is not empty either, and it is ended. -/
def IsBlock (text : String) : Prop :=
  text.toList.head? ≠ some '\n' ∧ ∃ s c, text.toList = s ++ [c, '\n'] ∧ c ≠ '\n'

lemma not_lineFeed_of_visible (h : isBlank c = false) : c ≠ '\n' := by
  rintro rfl
  exact absurd h (by decide)

lemma toList_ofLines_cons (first : String) (lines : List String) :
    (ofLines (first :: lines)).toList = first.toList ++ '\n' :: (ofLines lines).toList := by
  simp [ofLines]

lemma toList_ofLines_concat (lines : List String) (last : String) :
    (ofLines (lines ++ [last])).toList = (ofLines lines).toList ++ last.toList ++ ['\n'] := by
  simp [ofLines]

theorem isBlock_ofLines {more middle : List String} (hfirst : BeginsVisibly first)
    (hmore : more = middle ++ [last]) (hne : last ≠ "") (hline : '\n' ∉ last.toList) :
    IsBlock (ofLines (first :: more)) := by
  constructor
  · -- the first line begins visibly
    obtain ⟨c, s, hs, hc⟩ := hfirst
    rw [toList_ofLines_cons, hs]
    simpa using not_lineFeed_of_visible hc
  · -- the last line has characters, none of which is a line feed
    have hchars : last.toList ≠ [] := mt String.toList_eq_nil_iff.1 hne
    refine ⟨(ofLines (first :: middle)).toList ++ last.toList.dropLast, last.toList.getLast hchars,
      ?_, ?_⟩
    · rw [hmore, ← List.cons_append, toList_ofLines_concat]
      conv_lhs => rw [← List.dropLast_append_getLast hchars]
      simp only [List.append_assoc, List.cons_append, List.nil_append]
    · intro heq
      exact hline (heq ▸ List.getLast_mem hchars)

lemma BeginsVisibly.append (h : BeginsVisibly text) (text' : String) :
    BeginsVisibly (text ++ text') := by
  obtain ⟨c, s, hs, hc⟩ := h
  exact ⟨c, s ++ text'.toList, by rw [String.toList_append, hs, List.cons_append], hc⟩

lemma BeginsVisibly.ne_empty (h : BeginsVisibly text) : text ≠ "" := by
  rintro rfl
  obtain ⟨c, s, hs, -⟩ := h
  cases hs

lemma BeginsVisibly.intercalate (h : BeginsVisibly text) (sep : String) (texts : List String) :
    BeginsVisibly (sep.intercalate (text :: texts)) := by
  cases texts with
  | nil => rwa [String.intercalate_singleton]
  | cons text' texts =>
    rw [String.intercalate_cons_cons, String.append_assoc]
    exact h.append _

lemma mem_intercalate (h : c ∈ (sep.intercalate texts).toList) :
    c ∈ sep.toList ∨ ∃ text ∈ texts, c ∈ text.toList := by
  induction texts with
  | nil => simp at h
  | cons text texts ih =>
    cases texts with
    | nil =>
      rw [String.intercalate_singleton] at h
      exact Or.inr ⟨text, List.mem_singleton_self _, h⟩
    | cons text' texts =>
      rw [String.intercalate_cons_cons] at h
      simp only [String.toList_append, List.mem_append] at h
      rcases h with (h | h) | h
      · exact Or.inr ⟨text, List.mem_cons_self, h⟩
      · exact Or.inl h
      · rcases ih h with h | ⟨text'', hmem, h⟩
        · exact Or.inl h
        · exact Or.inr ⟨text'', List.mem_cons_of_mem _ hmem, h⟩

end Text

open Text

/-! ### Lines of cells -/

lemma beginsVisibly_bit (value : Bool) : BeginsVisibly (bit value) := by
  cases value
  · exact ⟨'0', [], rfl, by decide⟩
  · exact ⟨'1', [], rfl, by decide⟩

lemma not_mem_bit (value : Bool) : '\n' ∉ (bit value).toList := by
  cases value <;> decide

namespace Table

variable {limit : Limit} {header : Header} {table : Table} {name : String} {more : List String}
  {value : Bool} {row : List Bool}

lemma beginsVisibly_plainLine (h : BeginsVisibly name) (width : Nat) (widths : List Nat) :
    BeginsVisibly (plainLine (width :: widths) (name :: more)) := by
  have hpad : BeginsVisibly (pad .left width name) := h.append _
  obtain ⟨c, s, hs, hc⟩ := hpad.intercalate " | " (List.zipWith (pad .left) widths more)
  refine ⟨c, trimEnd s, ?_, hc⟩
  rw [plainLine, List.zipWith_cons_cons, String.toList_ofList, hs, trimEnd_cons hc]

lemma not_mem_pad (width : Nat) (value : Bool) : '\n' ∉ (pad .left width (bit value)).toList := by
  have hbit := not_mem_bit value
  simp [pad, spaces, hbit]

lemma not_mem_plainLine (widths : List Nat) (row : List Bool) :
    '\n' ∉ (plainLine widths (row.map bit)).toList := by
  intro h
  rw [plainLine, String.toList_ofList] at h
  rcases mem_intercalate (trimEnd_subset _ h) with h | ⟨text, htext, h⟩
  · simp at h
  · rw [← List.map_uncurry_zip_eq_zipWith] at htext
    obtain ⟨⟨width, cell⟩, hmem, rfl⟩ := List.mem_map.1 htext
    obtain ⟨value, -, rfl⟩ := List.mem_map.1 (List.of_mem_zip hmem).2
    exact not_mem_pad width value h

/-- No cell is quoted. -/
lemma quoteField_bit (value : Bool) : Csv.quoteField (bit value) = bit value := by
  cases value <;> decide

lemma not_mem_writeRecord (row : List Bool) (value : Bool) :
    '\n' ∉ (Csv.writeRecord ((value :: row).map bit)).toList := by
  intro h
  rw [List.map_cons, Csv.writeRecord_cons (beginsVisibly_bit value).ne_empty] at h
  rcases mem_intercalate h with h | ⟨text, htext, h⟩
  · simp at h
  · rw [← List.map_cons, List.map_map] at htext
    obtain ⟨value', -, rfl⟩ := List.mem_map.1 htext
    rw [Function.comp_apply, quoteField_bit] at h
    exact not_mem_bit value' h

lemma beginsVisibly_writeRecord (h : BeginsVisibly name) :
    BeginsVisibly (Csv.writeRecord (name :: more)) := by
  obtain ⟨c, s, hs, hc⟩ := h
  obtain rfl : name = String.ofList (c :: s) := by rw [← hs, String.ofList_toList]
  obtain ⟨d, t, hrecord, hd⟩ := Csv.exists_writeRecord_eq_cons c s more
  refine ⟨d, t, hrecord, ?_⟩
  rcases hd with rfl | rfl
  · decide
  · exact hc

/-! ### Tables -/

/-- There is a last row, and it has cells. -/
lemma exists_last_row (h : (build limit header).result = .ok table)
    (hnames : table.header.names = name :: more) :
    ∃ rows value row, table.rows = rows ++ [value :: row] := by
  have hpos : 0 < table.rows.length := by
    rw [length_rows h]
    exact Nat.two_pow_pos _
  have hne : table.rows ≠ [] := List.length_pos_iff.1 hpos
  obtain ⟨number, hrow⟩ := exists_isRow_of_mem h (List.getLast_mem hne)
  obtain rfl : table.header = header := (build_eq_ok_iff.1 h).2.1
  obtain ⟨value, row, hlast⟩ := List.exists_cons_of_ne_nil (hrow.ne_nil (by simp [hnames]))
  refine ⟨table.rows.dropLast, value, row, ?_⟩
  rw [← hlast, List.dropLast_append_getLast]

/-- If the first column has a visible beginning, a table is a block of lines in every format. -/
theorem isBlock_render (h : (build limit header).result = .ok table)
    (hnames : table.header.names = name :: more) (hname : BeginsVisibly name) (format : Format) :
    IsBlock (table.render format) := by
  obtain ⟨rows, value, row, hrows⟩ := exists_last_row h hnames
  cases format with
  | plain =>
    rw [render, plain, hnames, hrows]
    refine isBlock_ofLines (beginsVisibly_plainLine hname _ _) List.map_append ?_
      (not_mem_plainLine _ (value :: row))
    exact (beginsVisibly_plainLine (beginsVisibly_bit value) _ _).ne_empty
  | csv =>
    have hrecords : ((rows ++ [value :: row]).map (·.map bit)).map Csv.writeRecord =
        (rows.map (·.map bit)).map Csv.writeRecord ++
          [Csv.writeRecord ((value :: row).map bit)] := by
      rw [List.map_append, List.map_append]
      rfl
    rw [render, csv, Csv.write, hnames, hrows]
    refine isBlock_ofLines (beginsVisibly_writeRecord hname) hrecords ?_
      (not_mem_writeRecord row value)
    exact (beginsVisibly_writeRecord (beginsVisibly_bit value)).ne_empty
  | latex =>
    rw [render, latex]
    exact isBlock_ofLines ⟨'\\', _, rfl, by decide⟩
      (List.append_assoc _ ["\\hline", "\\end\x7btabular\x7d"] ["\\end\x7bcenter\x7d"]).symm
      (by decide) (by decide)

end Table

end TruthTables
