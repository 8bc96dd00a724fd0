import TruthTables.Proofs.Normalize
import TruthTables.Proofs.Render

/-!
# The layout of aligned text

In which place of which line a table written as aligned text has its names, bars and cells. So the
cells can be read back, and two tables with the same columns look the same only if they are the
same.
-/

namespace TruthTables

open Text

variable {rest s : List Char} {widths : List Nat} {width width' column p : Nat}
  {row row' : List Bool} {name name' : String} {names : List String}

/-! ### Lines -/

/-- The number of characters in front of a column. A bar with a space on each side comes behind
every other. -/
def offset (widths : List Nat) (column : Nat) : Nat :=
  ((widths.take column).map (· + 3)).sum

@[simp] lemma offset_zero (widths : List Nat) : offset widths 0 = 0 := rfl

@[simp] lemma offset_cons_succ (width : Nat) (widths : List Nat) (column : Nat) :
    offset (width :: widths) (column + 1) = width + 3 + offset widths column := rfl

def digit (value : Bool) : Char :=
  if value then '1' else '0'

lemma digit_injective : Function.Injective digit := by
  intro value value' h
  revert value value'
  decide

@[simp] lemma toList_bit (value : Bool) : (bit value).toList = [digit value] := by
  cases value <;> rfl

/-- A cell, filled with spaces to its width, and a bar with a space on each side. -/
def barredCell (width : Nat) (value : Bool) : List Char :=
  digit value :: List.replicate (width - 1) ' ' ++ [' ', '|', ' ']

lemma length_barredCell (hwidth : 0 < width) (value : Bool) :
    (barredCell width value).length = width + 3 := by
  simp only [barredCell, List.length_append, List.length_cons, List.length_replicate,
    List.length_nil]
  omega

lemma getElem?_barredCell (hwidth : 0 < width) (value : Bool) :
    (barredCell width value)[p]? =
      if p = 0 then some (digit value) else if p = width + 1 then some '|'
      else if p < width + 3 then some ' ' else none := by
  simp only [barredCell]
  grind

lemma getElem?_barredCell_append (hwidth : 0 < width) (value : Bool) (rest : List Char) (p : Nat) :
    (barredCell width value ++ rest)[width + 3 + p]? = rest[p]? := by
  rw [← length_barredCell hwidth value, List.getElem?_append_right (Nat.le_add_right _ _),
    Nat.add_sub_cancel_left]

/-- Each cell stands at the offset of its column, and a bar between any two columns. The rest of the
line consists of spaces, and it ends with the last cell. -/
structure IsPlainRow (widths : List Nat) (row : List Bool) (s : List Char) : Prop where
  length_row : row.length = widths.length
  cell : ∀ column value, row[column]? = some value →
    s[offset widths column]? = some (digit value)
  bar : ∀ column width, column + 1 < widths.length → widths[column]? = some width →
    s[offset widths column + width + 1]? = some '|'
  space : ∀ p c, s[p]? = some c → c = ' ' ∨
    (∃ column, column < widths.length ∧ p = offset widths column) ∨
    ∃ column width, column + 1 < widths.length ∧ widths[column]? = some width ∧
      p = offset widths column + width + 1
  length_line : s.length = offset widths (widths.length - 1) + 1

namespace IsPlainRow

lemma singleton (width : Nat) (value : Bool) : IsPlainRow [width] [value] [digit value] where
  length_row := rfl
  cell column value' h := by
    obtain ⟨hcolumn, rfl⟩ := List.getElem?_eq_some_iff.1 h
    obtain rfl : column = 0 := by simpa using hcolumn
    rfl
  bar column width' hcolumn := by simp at hcolumn
  space p c h := by
    obtain ⟨hp, -⟩ := List.getElem?_eq_some_iff.1 h
    obtain rfl : p = 0 := by simpa using hp
    exact Or.inr (Or.inl ⟨0, by simp, rfl⟩)
  length_line := rfl

lemma cons (h : IsPlainRow (width' :: widths) row rest) (hwidth : 0 < width) (value : Bool) :
    IsPlainRow (width :: width' :: widths) (value :: row) (barredCell width value ++ rest) where
  length_row := by simpa using h.length_row
  cell column value' hvalue := by
    cases column with
    | zero =>
      -- the digit of the first cell
      obtain rfl : value = value' := by simpa using hvalue
      rfl
    | succ column =>
      -- the other digits, which are behind the first cell
      rw [offset_cons_succ, getElem?_barredCell_append hwidth]
      exact h.cell column value' hvalue
  bar column width'' hcolumn hwidth' := by
    cases column with
    | zero =>
      -- the bar behind the first cell
      obtain rfl : width = width'' := by simpa using hwidth'
      have hlt : 0 + width + 1 < (barredCell width value).length := by
        rw [length_barredCell hwidth]
        omega
      rw [offset_zero, List.getElem?_append_left hlt, getElem?_barredCell hwidth,
        if_neg (by omega), if_pos (by omega)]
    | succ column =>
      -- the other bars
      rw [offset_cons_succ, Nat.add_assoc, Nat.add_assoc, getElem?_barredCell_append hwidth]
      exact h.bar column width'' (by simpa using hcolumn) hwidth'
  space p c hc := by
    rcases Nat.lt_or_ge p (width + 3) with hlt | hge
    · -- in the first cell: its digit, its bar, or a space
      rw [List.getElem?_append_left (by rwa [length_barredCell hwidth]),
        getElem?_barredCell hwidth] at hc
      split at hc
      · exact Or.inr (Or.inl ⟨0, by simp, ‹_›⟩)
      · split at hc
        · exact Or.inr (Or.inr ⟨0, width, by simp, rfl, by rw [offset_zero]; omega⟩)
        · exact Or.inl (by simpa [hlt, eq_comm] using hc)
    · -- behind it, in the line of the other cells
      obtain ⟨q, rfl⟩ := Nat.exists_eq_add_of_le hge
      rw [getElem?_barredCell_append hwidth] at hc
      rcases h.space q c hc with hspace | ⟨column, hcolumn, rfl⟩ | ⟨column, w, hcolumn, hw, rfl⟩
      · exact Or.inl hspace
      · exact Or.inr (Or.inl ⟨column + 1, by simpa using hcolumn, rfl⟩)
      · refine Or.inr (Or.inr ⟨column + 1, w, by simpa using hcolumn, hw, ?_⟩)
        rw [offset_cons_succ]
        omega
  length_line := by
    rw [List.length_append, length_barredCell hwidth, h.length_line]
    rfl

/-- The cells can be read back. -/
theorem row_eq (h : IsPlainRow widths row s) (h' : IsPlainRow widths row' s) :
    row = row' := by
  refine List.ext_getElem (h.length_row.trans h'.length_row.symm) fun column hlt hlt' => ?_
  have hcell := h.cell column _ (List.getElem?_eq_getElem hlt)
  have hcell' := h'.cell column _ (List.getElem?_eq_getElem hlt')
  exact digit_injective (Option.some.inj (hcell.symm.trans hcell'))

end IsPlainRow

namespace Table

lemma toList_pad_bit (width : Nat) (value : Bool) :
    (pad .left width (bit value)).toList = digit value :: List.replicate (width - 1) ' ' := by
  rw [pad, String.toList_append, toList_bit, spaces, String.toList_ofList]
  have hlength : (bit value).length = 1 := by cases value <;> rfl
  rw [hlength]
  rfl

lemma allBlank_of_intercalate {sep text : String} {texts : List String}
    (h : AllBlank (sep.intercalate (text :: texts)).toList) : AllBlank text.toList := by
  intro c hc
  apply h
  cases texts with
  | nil => simpa using hc
  | cons text' texts => simp [String.intercalate_cons_cons, hc]

/-- What stands left of a bar is not trimmed if there is something to be seen behind the bar. -/
lemma toList_plainLine_cons_cons (hvisible : ¬ AllBlank name'.toList) :
    (plainLine (width :: width' :: widths) (name :: name' :: names)).toList =
      (pad .left width name).toList ++ [' ', '|', ' '] ++
        (plainLine (width' :: widths) (name' :: names)).toList := by
  have hrest : ¬ AllBlank (" | ".intercalate
      (List.zipWith (pad .left) (width' :: widths) (name' :: names))).toList := by
    intro hblank
    have hpad := allBlank_of_intercalate hblank
    rw [pad, String.toList_append] at hpad
    exact hvisible fun c hc => hpad c (List.mem_append_left _ hc)
  rw [plainLine, plainLine]
  simp only [List.zipWith_cons_cons, String.intercalate_cons_cons, String.toList_ofList,
    String.toList_append]
  exact trimEnd_append_of_not_allBlank _ hrest

lemma trimEnd_bit (value : Bool) : trimEnd (bit value).toList = (bit value).toList := by
  cases value <;> decide

lemma not_allBlank_bit (value : Bool) : ¬ AllBlank (bit value).toList := by
  rw [toList_bit]
  cases value <;> simp [AllBlank, digit] <;> decide

lemma toList_plainLine_bit (width : Nat) (value : Bool) :
    (plainLine [width] [bit value]).toList = [digit value] := by
  have hspaces : AllBlank (List.replicate (width - 1) ' ') := by
    intro c hc
    rw [List.eq_of_mem_replicate hc]
    decide
  rw [plainLine, List.zipWith_cons_cons, List.zipWith_nil_left, String.intercalate_singleton,
    String.toList_ofList, toList_pad_bit, ← List.singleton_append, trimEnd_append hspaces,
    ← toList_bit, trimEnd_bit]

/-- A row is written with its cells and bars in their places. -/
theorem isPlainRow_plainLine (hlength : row.length = widths.length) (hne : row ≠ [])
    (hwidths : ∀ width ∈ widths, 0 < width) :
    IsPlainRow widths row (plainLine widths (row.map bit)).toList := by
  induction widths generalizing row with
  | nil => exact absurd (List.length_eq_zero_iff.1 hlength) hne
  | cons width widths ih =>
    obtain ⟨hwidth, hwidths⟩ := List.forall_mem_cons.1 hwidths
    obtain ⟨value, row, rfl⟩ := List.exists_cons_of_ne_nil hne
    cases widths with
    | nil =>
      obtain rfl : row = [] := by simpa using hlength
      rw [List.map_singleton, toList_plainLine_bit]
      exact .singleton width value
    | cons width' widths =>
      have hlength' : row.length = (width' :: widths).length := by simpa using hlength
      have hne' : row ≠ [] := by
        rintro rfl
        simp at hlength'
      have hrest := ih hlength' hne' hwidths
      obtain ⟨value', row, rfl⟩ := List.exists_cons_of_ne_nil hne'
      have hline := hrest.cons hwidth value
      rw [List.map_cons, List.map_cons, toList_plainLine_cons_cons (not_allBlank_bit value'),
        toList_pad_bit]
      exact hline

/-! ### The line of names -/

lemma pad_length_self (name : String) : pad .left name.length name = name := by
  simp [pad, spaces]

lemma toList_plainLine_names (names : List String) :
    (plainLine (names.map String.length) names).toList =
      trimEnd (" | ".intercalate names).toList := by
  have hpad : List.zipWith (pad .left) (names.map String.length) names = names := by
    rw [List.zipWith_map_left, List.zipWith_self]
    simp [pad_length_self]
  rw [plainLine, hpad, String.toList_ofList]

/-- Every name but the last stands at the offset of its column. -/
theorem name_of_plainLine (hvisible : ∀ name ∈ names, ¬ AllBlank name.toList)
    (hcolumn : column + 1 < names.length) (hname : names[column]? = some name) :
    ((plainLine (names.map String.length) names).toList.drop
        (offset (names.map String.length) column)).take name.length = name.toList := by
  induction names generalizing column with
  | nil => simp at hname
  | cons name' names ih =>
    cases names with
    | nil => simp at hcolumn
    | cons name'' names =>
      obtain ⟨-, hvisible'⟩ := List.forall_mem_cons.1 hvisible
      rw [List.map_cons, List.map_cons,
        toList_plainLine_cons_cons (hvisible' name'' List.mem_cons_self), pad_length_self]
      cases column with
      | zero =>
        obtain rfl : name' = name := by simpa using hname
        rw [offset_zero, List.drop_zero, List.append_assoc]
        exact List.take_left' String.length_toList
      | succ column =>
        -- the first name and its bar fill the first column
        have hbar : (name'.toList ++ [' ', '|', ' ']).length = name'.length + 3 := by
          rw [List.length_append, String.length_toList]
          rfl
        rw [offset_cons_succ, ← List.drop_drop, List.drop_left' hbar]
        exact ih hvisible' (by simpa using hcolumn) hname

end Table

/-! ### Tables -/

lemma ofLines_cons_ne (line : String) (lines : List String) :
    ofLines (line :: lines) ≠ ofLines [] := by
  intro h
  have htext := congrArg String.toList h
  rw [toList_ofLines_cons] at htext
  simp [ofLines] at htext

/-- Different rows are written as different lines. -/
theorem rows_eq_of_ofLines_eq {rows rows' : List (List Bool)} {lines lines' : List String}
    (h : List.Forall₂ (fun row (line : String) => IsPlainRow widths row line.toList) rows lines)
    (h' : List.Forall₂ (fun row (line : String) => IsPlainRow widths row line.toList) rows' lines')
    (heq : ofLines lines = ofLines lines') : rows = rows' := by
  induction h generalizing rows' lines' with
  | nil =>
    cases h' with
    | nil => rfl
    | cons => exact absurd heq.symm (ofLines_cons_ne _ _)
  | cons hrow hrows ih =>
    cases h' with
    | nil => exact absurd heq (ofLines_cons_ne _ _)
    | cons hrow' hrows' =>
      -- lines of the same widths are equally long, so the first two of them agree
      have htext := congrArg String.toList heq
      rw [toList_ofLines_cons, toList_ofLines_cons] at htext
      obtain ⟨hline, hrest⟩ :=
        List.append_inj htext (hrow.length_line.trans hrow'.length_line.symm)
      rw [← hline] at hrow'
      obtain ⟨-, hrest⟩ := List.cons.inj hrest
      rw [hrow.row_eq hrow', ih hrows' (String.toList_inj.1 hrest)]

namespace Table

variable {limit : Limit} {header : Header} {table : Table}

/-- Every row has a cell for each column. -/
def IsRectangular (table : Table) : Prop :=
  ∀ row ∈ table.rows, row.length = table.header.size

def nameWidths (table : Table) : List Nat :=
  table.header.names.map String.length

def rowLines (table : Table) : List String :=
  table.rows.map fun row => plainLine table.nameWidths (row.map bit)

lemma plain_eq (table : Table) : table.plain =
    ofLines (plainLine table.nameWidths table.header.names :: table.rowLines) := rfl

lemma isRectangular_of_build (h : (build limit header).result = .ok table) :
    table.IsRectangular := by
  intro row hmem
  obtain ⟨number, hrow⟩ := exists_isRow_of_mem h hmem
  obtain rfl : table.header = header := (build_eq_ok_iff.1 h).2.1
  exact hrow.length_eq

lemma not_allBlank_of_mem_names (hname : name ∈ table.header.names) : ¬ AllBlank name.toList := by
  obtain ⟨f, -, rfl⟩ := List.mem_map.1 hname
  rw [← tokenize_eq_nil_iff, ← f.tokens_eq]
  exact f.ne_nil

lemma length_nameWidths (table : Table) : table.nameWidths.length = table.header.size := by
  rw [nameWidths, List.length_map, Header.length_names]

lemma width_pos (hwidth : width ∈ table.nameWidths) : 0 < width := by
  obtain ⟨name, hname, rfl⟩ := List.mem_map.1 hwidth
  rw [← String.length_toList, List.length_pos_iff]
  intro hnil
  apply not_allBlank_of_mem_names hname
  simp [hnil, AllBlank]

lemma forall₂_isPlainRow (h : table.IsRectangular) (hsize : 0 < table.header.size) :
    List.Forall₂ (fun row (line : String) => IsPlainRow table.nameWidths row line.toList)
      table.rows table.rowLines := by
  rw [rowLines, List.forall₂_map_right_iff, List.forall₂_same]
  intro row hmem
  have hlength := h row hmem
  refine isPlainRow_plainLine (hlength.trans table.length_nameWidths.symm) ?_ fun _ => width_pos
  rintro rfl
  exact absurd hlength (Nat.ne_of_lt hsize)

/-- The names of the columns make up a first line, with each name but the last at the offset of its
column, and each row is a line of its own. So the rows can be told from the text. -/
theorem plain_is_aligned (table : Table) :
    (∀ limit header, (build limit header).result = .ok table → table.IsRectangular) ∧
    (table.IsRectangular → 0 < table.header.size →
      (∃ first lines, table.plain = ofLines (first :: lines) ∧
        first.toList = trimEnd (" | ".intercalate table.header.names).toList ∧
        (∀ column name, column + 1 < table.header.size →
          table.header.names[column]? = some name →
          (first.toList.drop (offset table.nameWidths column)).take name.length = name.toList) ∧
        List.Forall₂ (fun row (line : String) => IsPlainRow table.nameWidths row line.toList)
          table.rows lines) ∧
      ∀ table' : Table, table'.IsRectangular → table'.header.names = table.header.names →
        table'.plain = table.plain → table'.rows = table.rows) := by
  refine ⟨fun _ _ => isRectangular_of_build, fun h hsize => ⟨?_, ?_⟩⟩
  · refine ⟨_, table.rowLines, table.plain_eq, toList_plainLine_names _, ?_,
      forall₂_isPlainRow h hsize⟩
    intro column name hcolumn hname
    rw [← Header.length_names] at hcolumn
    exact name_of_plainLine (fun _ => not_allBlank_of_mem_names) hcolumn hname
  · -- the widths are those of the names, so the lines of both tables have the same layout
    intro table' h' hnames htext
    have hwidths : table'.nameWidths = table.nameWidths := congrArg (List.map String.length) hnames
    have hsize' : 0 < table'.header.size := by
      rwa [← Header.length_names, hnames, Header.length_names]
    have hrows := forall₂_isPlainRow h hsize
    have hrows' := forall₂_isPlainRow h' hsize'
    rw [hwidths] at hrows'
    refine rows_eq_of_ofLines_eq hrows' hrows (String.toList_inj.1 ?_)
    rw [plain_eq, plain_eq, hwidths, hnames] at htext
    have hlines := congrArg String.toList htext
    rw [toList_ofLines_cons, toList_ofLines_cons] at hlines
    exact (List.cons.inj (List.append_cancel_left hlines)).2

/-- A name with a letter outside of ASCII, and one with a space at its end. -/
def accentedHeader : Header :=
  ((Header.ofTexts ["é", "q ", "é -> q "]).toOption).getD Header.empty

def accentedTable : Table where
  header := accentedHeader
  rows := [[false, false, true], [false, true, true], [true, false, false], [true, true, true]]

theorem accentedTable_is_aligned :
    (build {} accentedHeader).result = .ok accentedTable ∧
      accentedTable.IsRectangular ∧ 0 < accentedTable.header.size ∧
      ∃ first lines, accentedTable.plain = ofLines (first :: lines) ∧
        first.toList = "é | q  | é -> q".toList ∧
        List.Forall₂ (fun row (line : String) => IsPlainRow [1, 2, 7] row line.toList)
          accentedTable.rows lines := by
  have h : (build {} accentedHeader).result = .ok accentedTable := by decide +kernel
  obtain ⟨hbuild, hlayout⟩ := plain_is_aligned accentedTable
  have hrectangular := hbuild _ _ h
  have hsize : 0 < accentedTable.header.size := by decide +kernel
  obtain ⟨⟨first, lines, htext, hfirst, -, hlines⟩, -⟩ := hlayout hrectangular hsize
  have hwidths : accentedTable.nameWidths = [1, 2, 7] := by decide +kernel
  have htrimmed : trimEnd (" | ".intercalate accentedTable.header.names).toList =
      "é | q  | é -> q".toList := by decide +kernel
  rw [hwidths] at hlines
  exact ⟨h, hrectangular, hsize, first, lines, htext, hfirst.trans htrimmed, hlines⟩

example : accentedTable.plain =
    "é | q  | é -> q\n0 | 0  | 1\n0 | 1  | 1\n1 | 0  | 0\n1 | 1  | 1\n" := by
  decide +kernel

end Table

end TruthTables
