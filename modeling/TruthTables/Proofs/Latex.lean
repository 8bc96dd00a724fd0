import TruthTables.Proofs.Normalize
import TruthTables.Proofs.Meaning
import TruthTables.Table.Render

/-!
# The cells of a tabular

What the alignment tabs of a line separate. A tab is an ampersand that is not escaped. The lines of
rows have as many cells as columns are declared. The names of the columns are written as they are,
and since `&` spells a connective, their line may have more.
-/

namespace TruthTables

open Text

/-! ### Cells of a line -/

section

variable {texts : List String}

/-- Whether the character behind `c` is escaped, given whether `c` is. -/
def escapesNext (escaped : Bool) (c : Char) : Bool :=
  !escaped && c = '\\'

/-- The parts of a line between alignment tabs, if its first character is escaped or not. -/
def cellsFrom (escaped : Bool) : List Char → List (List Char)
  | [] => [[]]
  | c :: s =>
    if c = '&' ∧ escaped = false then [] :: cellsFrom false s
    else (cellsFrom (escapesNext escaped c) s).modifyHead (c :: ·)

/-- The cells of a line of a tabular. -/
def latexCells (line : String) : List (List Char) :=
  cellsFrom false line.toList

/-- The number of alignment tabs, if the first character is escaped or not. -/
def tabsFrom (escaped : Bool) : List Char → Nat
  | [] => 0
  | c :: s => (if c = '&' ∧ escaped = false then 1 else 0) + tabsFrom (escapesNext escaped c) s

lemma length_cellsFrom (escaped : Bool) (s : List Char) :
    (cellsFrom escaped s).length = tabsFrom escaped s + 1 := by
  induction s generalizing escaped with
  | nil => rfl
  | cons c s ih =>
    rw [cellsFrom, tabsFrom]
    split
    · rename_i htab
      obtain ⟨rfl, rfl⟩ := htab
      rw [List.length_cons, ih, Nat.add_comm 1]
      rfl
    · rw [List.length_modifyHead, ih, Nat.zero_add]

lemma tabsFrom_append (escaped : Bool) (s t : List Char) :
    tabsFrom escaped (s ++ t) =
      tabsFrom escaped s + tabsFrom (s.foldl escapesNext escaped) t := by
  induction s generalizing escaped with
  | nil => simp [tabsFrom]
  | cons c s ih => simp only [List.cons_append, tabsFrom, ih, List.foldl_cons, Nat.add_assoc]

/-- The tabs within a cell in math mode are those of its text, and nothing behind it is escaped. -/
lemma tabsFrom_math_append (text : String) (t : List Char) :
    tabsFrom false (("$" ++ text ++ "$").toList ++ t) =
      tabsFrom false text.toList + tabsFrom false t := by
  have hlist : ("$" ++ text ++ "$").toList ++ t = '$' :: (text.toList ++ '$' :: t) := by simp
  have hopen : escapesNext false '$' = false := by decide
  have hclose : ∀ escaped, escapesNext escaped '$' = false := by decide
  have hdollar : '$' ≠ '&' := by decide
  simp only [hlist, tabsFrom, tabsFrom_append, hopen, hclose, hdollar, false_and, if_false,
    Nat.zero_add]

lemma tabsFrom_tab_append (t : List Char) :
    tabsFrom false (" & ".toList ++ t) = 1 + tabsFrom false t := by
  have hspace : escapesNext false ' ' = false := by decide
  have htab : escapesNext false '&' = false := by decide
  show tabsFrom false (' ' :: '&' :: ' ' :: t) = _
  simp [tabsFrom, hspace, htab]

lemma tabsFrom_intercalate (hne : texts ≠ []) (t : List Char) :
    tabsFrom false
        ((" & ".intercalate (texts.map fun text => "$" ++ text ++ "$")).toList ++ t) + 1 =
      texts.length + (texts.map fun text => tabsFrom false text.toList).sum +
        tabsFrom false t := by
  induction texts with
  | nil => exact absurd rfl hne
  | cons text texts ih =>
    cases texts with
    | nil =>
      rw [List.map_singleton, String.intercalate_singleton, tabsFrom_math_append]
      simp only [List.length_singleton, List.map_singleton, List.sum_singleton]
      omega
    | cons text' texts =>
      have ih' := ih (List.cons_ne_nil _ _)
      rw [List.map_cons] at ih'
      rw [List.map_cons, List.map_cons, String.intercalate_cons_cons, String.toList_append,
        String.toList_append, List.append_assoc, List.append_assoc, tabsFrom_math_append,
        tabsFrom_tab_append]
      simp only [List.length_cons, List.map_cons, List.sum_cons] at ih' ⊢
      omega

/-- A line has the cells that it is made of, and one more for each tab within one of them. -/
theorem length_latexCells_latexLine (hne : texts ≠ []) :
    (latexCells (Table.latexLine texts)).length =
      texts.length + (texts.map fun text => tabsFrom false text.toList).sum := by
  have hend : tabsFrom false "\\\\".toList = 0 := by decide
  rw [latexCells, length_cellsFrom, Table.latexLine, String.toList_append,
    tabsFrom_intercalate hne, hend]
  rfl

example : latexCells "$p \\& q$ & $r$" = ["$p \\& q$ ".toList, " $r$".toList] := by
  decide

end

/-! ### Tabs within names -/

/-- No token looks like the canonical spelling of a connective without being one. -/
def Unescaped (ts : List Token) : Prop :=
  ∀ word, .name word ∈ ts → Token.isEscaped word = false

section

variable {s : List Char} {c : Char} {op : Connective} {source : String}
  {IsColumn : List Token → Prop} {ts : List Token} {t : Tree}

/-- Every ampersand is an alignment tab, and nothing behind the text is escaped. -/
def EscapesNothing (s : List Char) : Prop :=
  tabsFrom false s = s.count '&' ∧ s.foldl escapesNext false = false

lemma EscapesNothing.append {s t : List Char} (hs : EscapesNothing s) (ht : EscapesNothing t) :
    EscapesNothing (s ++ t) := by
  constructor
  · rw [tabsFrom_append, hs.2, hs.1, ht.1, List.count_append]
  · rw [List.foldl_append, hs.2, ht.2]

lemma escapesNothing_of_not_mem (h : '\\' ∉ s) : EscapesNothing s := by
  induction s with
  | nil => exact ⟨rfl, rfl⟩
  | cons c s ih =>
    rw [List.mem_cons, not_or] at h
    have hc : escapesNext false c = false := by simpa [escapesNext] using Ne.symm h.1
    obtain ⟨htabs, hend⟩ := ih h.2
    refine ⟨?_, by rwa [List.foldl_cons, hc]⟩
    rw [tabsFrom, hc, htabs, List.count_cons]
    simp [Nat.add_comm]

lemma escapesNothing_singleton (hc : isWordChar c = false) : EscapesNothing [c] := by
  apply escapesNothing_of_not_mem
  rw [List.mem_singleton]
  rintro rfl
  exact absurd hc (by decide)

lemma escapesNothing_canonical (op : Connective) : EscapesNothing op.canonical.toList := by
  cases op <;> exact ⟨by decide, by decide⟩

/-- The mark that starts canonical spellings is in no other spelling. -/
lemma eq_canonical_of_mem_spellings {word : String} (h : word ∈ op.spellings)
    (hmark : '\\' ∈ word.toList) : word = op.canonical := by
  revert word
  cases op <;> decide

lemma exists_canonical_of_unescaped (h : Unescaped (tokenize source)) {run : List Char}
    (hrun : run ∈ words (spaceParens source.toList)) (hmark : '\\' ∈ run) :
    ∃ op : Connective, run = op.canonical.toList := by
  rcases mem_words_spaceParens hrun with ⟨c, hc, rfl⟩ | hword
  · -- a parenthesis is not the escape mark
    obtain rfl := List.mem_singleton.1 hmark
    exact absurd hc (by decide)
  · -- a word with the mark in it is a connective, as no name is escaped
    have hmem : Token.ofWord (String.ofList run) ∈ tokenize source :=
      List.mem_map_of_mem (f := fun run => Token.ofWord (String.ofList run)) hrun
    rw [ofWord_of_isWord hword] at hmem
    cases hop : Connective.ofSpelling? (String.ofList run) with
    | some op =>
      have hspelling := Connective.ofSpelling?_eq_some_iff.1 hop
      refine ⟨op, ?_⟩
      rw [← eq_canonical_of_mem_spellings hspelling (by simpa using hmark), String.toList_ofList]
    | none =>
      rw [hop] at hmem
      have hescaped := h _ hmem
      simp [Token.isEscaped, Connective.escapeMark, hmark] at hescaped

/-- A text escapes nothing if the mark of canonical spellings is in nothing else. -/
theorem escapesNothing_of_words
    (h : ∀ run ∈ words (spaceParens s), '\\' ∈ run → ∃ op : Connective, run = op.canonical.toList) :
    EscapesNothing s := by
  induction s using scan_induction with
  | nil => exact ⟨rfl, rfl⟩
  | blank c s hc ih =>
    rw [words_spaceParens_of_isBlank hc] at h
    exact (escapesNothing_singleton (isWordChar_eq_false_iff.2 (Or.inl hc))).append (ih h)
  | paren c s hc ih =>
    rw [words_spaceParens_of_isParen hc] at h
    exact (escapesNothing_singleton (isWordChar_eq_false_iff.2 (Or.inr hc))).append
      (ih (List.forall_mem_cons.1 h).2)
  | word c s hc ih =>
    rw [words_spaceParens_of_isWordChar hc] at h
    obtain ⟨hrun, hrest⟩ := List.forall_mem_cons.1 h
    have hword : EscapesNothing (c :: s.takeWhile isWordChar) := by
      by_cases hmark : '\\' ∈ c :: s.takeWhile isWordChar
      · obtain ⟨op, hop⟩ := hrun hmark
        rw [hop]
        exact escapesNothing_canonical op
      · exact escapesNothing_of_not_mem hmark
    have happend := hword.append (ih hrest)
    rwa [List.cons_append, List.takeWhile_append_dropWhile] at happend

/-- Every ampersand in a text is an alignment tab, if its tokens are not escaped. -/
theorem tabsFrom_of_unescaped (h : Unescaped (tokenize source)) :
    tabsFrom false source.toList = source.toList.count '&' :=
  (escapesNothing_of_words fun _ => exists_canonical_of_unescaped h).1

/-- What is read over such columns has no escaped tokens. -/
lemma ReadsAs.unescaped (h : ReadsAs IsColumn ts t) (hcolumn : ∀ us, IsColumn us → Unescaped us) :
    Unescaped ts := by
  induction h with
  | column h => exact hcolumn _ h
  | group _ hs _ ih =>
    obtain ⟨rfl, -⟩ := enclosed?_eq_some_iff.1 (Shape.enclosed?_of_ofTokens hs)
    intro word hword
    exact ih word (by simpa using hword)
  | negation _ hs _ ih =>
    obtain rfl := Shape.eq_append_of_ofTokens hs
    intro word hword
    exact ih word (by simpa using hword)
  | join _ _ hs _ _ ihl ihr =>
    obtain rfl := Shape.eq_append_of_ofTokens hs
    intro word hword
    simp only [List.mem_append, List.mem_cons, reduceCtorEq, false_or] at hword
    exact hword.elim (ihl word) (ihr word)

end

namespace Header

variable {header : Header} {row : List Bool} {number : Nat} {f : Formula}

lemma IsVariable.unescaped {ts : List Token} (h : header.IsVariable ts) : Unescaped ts := by
  obtain ⟨f, -, hatomic, rfl⟩ := h
  intro word hword
  simp only [Formula.isAtomic, Bool.not_eq_true', List.any_eq_false] at hatomic
  simpa [Token.isLogical] using hatomic _ hword

/-- A column with a value has no escaped tokens. -/
lemma IsRow.unescaped (h : header.IsRow number row) (hf : f ∈ header.entries) :
    Unescaped f.tokens := by
  obtain ⟨column, hcolumn⟩ := List.getElem?_of_mem hf
  obtain ⟨value, -, hresult⟩ := getElem?_of_forall₂ h hcolumn
  rw [result_evaluate, mapError_eq_ok_iff, result_evaluate_eq_ok_iff, known_startRow] at hresult
  obtain ⟨t, hreads, -⟩ := hresult
  exact hreads.unescaped fun _ => IsVariable.unescaped

end Header

/-! ### Tables -/

namespace Table

variable {limit : Limit} {header : Header} {table : Table}

lemma tabsFrom_of_mem_names (h : (build limit header).result = .ok table) {name : String}
    (hname : name ∈ header.names) : tabsFrom false name.toList = name.toList.count '&' := by
  obtain ⟨f, hf, rfl⟩ := List.mem_map.1 hname
  have hrows : 0 < table.rows.length := by
    rw [length_rows h]
    exact Nat.two_pow_pos _
  have hrow := (isRow_of_build h (List.getElem?_eq_getElem hrows)).2
  exact tabsFrom_of_unescaped (f.tokens_eq ▸ hrow.unescaped hf)

lemma count_latexColumns (n : Nat) : (latexColumns n).toList.count 'c' = n := by
  have hcolumns : (latexColumns n).toList =
      '|' :: (List.replicate n "c|").flatMap String.toList := by
    simp [latexColumns]
  rw [hcolumns]
  simp [List.count_flatMap]

lemma tabsFrom_bit (value : Bool) : tabsFrom false (bit value).toList = 0 := by
  cases value <;> decide

/-- As many columns are declared, and each line of a row has as many cells, as there are columns in
the header. The line of names has one cell more for each ampersand in a name, so it fits exactly if
no name has one. -/
theorem latex_cells (limit : Limit) (header : Header) (table : Table)
    (h : (build limit header).result = .ok table) (hsize : 0 < header.size) :
    table.latex = ofLines (["\\begin\x7bcenter\x7d",
      " \\begin\x7btabular\x7d\x7b" ++ latexColumns header.size ++ "\x7d", " \\hline",
      latexLine header.names, "\\hline"] ++ table.rows.map (fun row => latexLine (row.map bit)) ++
      ["\\hline", "\\end\x7btabular\x7d", "\\end\x7bcenter\x7d"]) ∧
    (latexColumns header.size).toList.count 'c' = header.size ∧
    (∀ row ∈ table.rows, (latexCells (latexLine (row.map bit))).length = header.size) ∧
    (latexCells (latexLine header.names)).length =
      header.size + (header.names.map fun name => name.toList.count '&').sum ∧
    ((latexCells (latexLine header.names)).length = header.size ↔
      ∀ name ∈ header.names, '&' ∉ name.toList) := by
  obtain rfl : table.header = header := (build_eq_ok_iff.1 h).2.1
  have hnames : table.header.names ≠ [] := by
    rwa [← List.length_pos_iff, Header.length_names]
  have htabs : table.header.names.map (fun name => tabsFrom false name.toList) =
      table.header.names.map fun name => name.toList.count '&' :=
    List.map_congr_left fun _ => tabsFrom_of_mem_names h
  have hcells : (latexCells (latexLine table.header.names)).length =
      table.header.size + (table.header.names.map fun name => name.toList.count '&').sum := by
    rw [length_latexCells_latexLine hnames, Header.length_names, htabs]
  refine ⟨rfl, count_latexColumns _, ?_, hcells, ?_⟩
  · -- cells of rows are digits
    intro row hmem
    obtain ⟨number, hrow⟩ := exists_isRow_of_mem h hmem
    have hne : row.map bit ≠ [] := by simpa using hrow.ne_nil hnames
    rw [length_latexCells_latexLine hne, List.length_map, hrow.length_eq, List.map_map]
    simp [Function.comp_def, tabsFrom_bit]
  · rw [hcells]
    simp [List.sum_eq_zero_iff_forall_eq_nat, List.count_eq_zero]

/-- Two variables, and two formulas of them. -/
def canonicalHeader : Header :=
  ((Header.ofTexts ["p", "q", "p \\land q", "(q || p)"]).toOption).getD Header.empty

def canonicalTable : Table where
  header := canonicalHeader
  rows := [[false, false, false, false], [false, true, false, true], [true, false, false, true],
    [true, true, true, true]]

theorem canonicalTable_has_equal_lines :
    (build {} canonicalHeader).result = .ok canonicalTable ∧ 0 < canonicalHeader.size ∧
      (∀ row ∈ canonicalTable.rows, (latexCells (latexLine (row.map bit))).length = 4) ∧
      (latexCells (latexLine canonicalHeader.names)).length = 4 := by
  have h : (build {} canonicalHeader).result = .ok canonicalTable := by decide +kernel
  have hsize : 0 < canonicalHeader.size := by decide +kernel
  have hfour : canonicalHeader.size = 4 := by decide +kernel
  obtain ⟨-, -, hrows, -, hnames⟩ := latex_cells {} canonicalHeader canonicalTable h hsize
  rw [hfour] at hrows hnames
  exact ⟨h, hsize, hrows, hnames.2 (by decide +kernel)⟩

/-- Two variables, and a formula with an ampersand. -/
def ampersandTable : Table where
  header := ((Header.ofTexts ["p", "q", "p & q"]).toOption).getD Header.empty
  rows := [[false, false, false], [false, true, false], [true, false, false], [true, true, true]]

/-- The line of names of a table can have more cells than columns are declared. -/
theorem ampersandTable_has_long_line :
    (ofTexts {} ["p", "q", "p & q"]).result = .ok ampersandTable ∧
      (latexColumns ampersandTable.header.size).toList.count 'c' = 3 ∧
      latexLine ampersandTable.header.names = "$p$ & $q$ & $p & q$\\\\" ∧
      (latexCells (latexLine ampersandTable.header.names)).length = 4 := by
  refine ⟨?_, ?_, ?_, ?_⟩ <;> decide +kernel

end Table

end TruthTables
