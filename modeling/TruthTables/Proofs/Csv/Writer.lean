import TruthTables.Table.Render
import TruthTables.Proofs.Csv.Reader

/-!
# Reading what was written

Main statement: the reader finds the fields that the writer was given, whatever characters they
hold, and then goes on behind them. Only the first field of a record must not be empty nor begin
like a comment.
-/

namespace TruthTables.Csv

variable {mode : Mode} {fields : List (List Char)} {field rest s : List Char} {c : Char}
  {record : List String} {records : List (List String)}

/-! ### Marks of characters -/

lemma mark_eq (c : Char) :
    Symbol.mark c =
      if c = ',' then .comma
      else if c = '\x22' then .quote
      else if c = '\r' then .carriageReturn
      else if c = '\n' then .lineFeed
      else if c = '#' then .numberSign
      else .ordinary := by
  show Mark.ofCodePoint c.toNat = _
  simp only [Mark.ofCodePoint, ← Char.toNat_inj]
  rfl

lemma mark_of_not_needsQuotes (h : needsQuotes c = false) :
    Symbol.mark c = if c = '#' then .numberSign else .ordinary := by
  simp only [needsQuotes, Bool.or_eq_false_iff, decide_eq_false_iff_not] at h
  obtain ⟨⟨⟨hcomma, hquote⟩, hreturn⟩, hfeed⟩ := h
  rw [mark_eq, if_neg hcomma, if_neg hquote, if_neg hreturn, if_neg hfeed]

/-! ### Fields -/

/-- A field with this text can begin: if it is the first one, it is not empty and does not begin
like a comment. -/
inductive Mode.Admits : Mode → List Char → Prop where
  | between {c : Char} {s : List Char} (h : c ≠ '#') : Admits .between (c :: s)
  | fieldStart (s : List Char) : Admits .fieldStart s

lemma Mode.Admits.action_quote (h : mode.Admits s) : mode.action .quote = .skip .quoted := by
  cases h <;> rfl

/-- A comma ends the field and a line feed the record. -/
def Mode.EndsField (mode : Mode) : Prop :=
  mode.action .comma = .endField ∧ mode.action .lineFeed = .endRecord .between

/-- A field without special characters is taken as it is. -/
lemma fieldsFrom_plain (hadmits : mode.Admits s) (hplain : ∀ c ∈ s, needsQuotes c = false) :
    ∃ mode' : Mode, mode'.EndsField ∧ ∀ rest,
      fieldsFrom mode fields [] (s ++ rest) = fieldsFrom mode' fields s.reverse rest := by
  cases s with
  | nil =>
    cases hadmits
    exact ⟨.fieldStart, ⟨rfl, rfl⟩, fun rest => rfl⟩
  | cons c s =>
    obtain ⟨hc, hs⟩ := List.forall_mem_cons.1 hplain
    have hfirst : mode.action (Symbol.mark c) = .take .unquoted := by
      rw [mark_of_not_needsQuotes hc]
      cases hadmits with
      | between h => rw [if_neg h]; rfl
      | fieldStart => split <;> rfl
    have hrun : ∀ d ∈ s, Mode.unquoted.action (Symbol.mark d) = .take .unquoted := by
      intro d hd
      rw [mark_of_not_needsQuotes (hs d hd)]
      split <;> rfl
    refine ⟨.unquoted, ⟨rfl, rfl⟩, fun rest => ?_⟩
    rw [List.cons_append, fieldsFrom_of_take hfirst, fieldsFrom_take_run hrun, List.reverse_cons]

/-- Inside quotes every character is taken, and a quote is taken once where it stands twice. -/
lemma fieldsFrom_doubleQuotes (s field rest : List Char) :
    fieldsFrom .quoted fields field (doubleQuotes s ++ rest) =
      fieldsFrom .quoted fields (s.reverse ++ field) rest := by
  induction s generalizing field with
  | nil => rfl
  | cons c s ih =>
    rw [doubleQuotes, List.flatMap_cons, List.append_assoc, List.reverse_cons, List.append_assoc,
      List.singleton_append]
    by_cases hc : c = '\x22'
    · -- a quote is written twice and read once
      subst hc
      exact ih ('\x22' :: field)
    · -- any other character is read as it is
      have haction : Mode.quoted.action (Symbol.mark c) = .take .quoted := by
        rw [mark_eq, if_neg hc]
        repeat' split
        all_goals rfl
      rw [if_neg hc, List.singleton_append, fieldsFrom_of_take haction]
      exact ih (c :: field)

/-- A written field is taken as it was. -/
lemma fieldsFrom_quoteField (fields : List (List Char)) (text : String)
    (hadmits : mode.Admits text.toList) :
    ∃ mode' : Mode, mode'.EndsField ∧ ∀ rest,
      fieldsFrom mode fields [] ((quoteField text).toList ++ rest) =
        fieldsFrom mode' fields text.toList.reverse rest := by
  rw [quoteField]
  split
  · refine ⟨.quoteInQuoted, ⟨rfl, rfl⟩, fun rest => ?_⟩
    have hclose : Mode.quoted.action .quote = .skip .quoteInQuoted := rfl
    simp only [String.toList_append, String.toList_ofList, List.append_assoc]
    show fieldsFrom mode fields [] ('\x22' :: (_ ++ '\x22' :: rest)) = _
    rw [fieldsFrom_of_skip (s := '\x22') hadmits.action_quote, fieldsFrom_doubleQuotes,
      fieldsFrom_of_skip (s := '\x22') hclose, List.append_nil]
  · rename_i hany
    refine fieldsFrom_plain hadmits fun c hc => ?_
    rw [Bool.not_eq_true, List.any_eq_false] at hany
    simpa using hany c hc

/-! ### Records -/

lemma toList_intercalate_cons_cons (text text' : String) (more : List String) :
    (",".intercalate ((text :: text' :: more).map quoteField)).toList =
      (quoteField text).toList ++
        ',' :: (",".intercalate ((text' :: more).map quoteField)).toList := by
  simp

/-- The fields of a record are found behind those that were found before. -/
lemma fieldsFrom_intercalate (text : String) (more : List String)
    (hadmits : mode.Admits text.toList) (rest : List Char) :
    fieldsFrom mode fields []
        ((",".intercalate ((text :: more).map quoteField)).toList ++ '\n' :: rest) =
      (fields.reverse ++ (text :: more).map String.toList) ::
        fieldsFrom .between [] [] rest := by
  induction more generalizing text mode fields with
  | nil =>
    obtain ⟨mode', hends, hfield⟩ := fieldsFrom_quoteField fields text hadmits
    rw [List.map_singleton, String.intercalate_singleton, hfield,
      fieldsFrom_of_endRecord (s := '\n') hends.2]
    simp
  | cons text' more ih =>
    obtain ⟨mode', hends, hfield⟩ := fieldsFrom_quoteField fields text hadmits
    rw [toList_intercalate_cons_cons, List.append_assoc, List.cons_append, hfield,
      fieldsFrom_of_endField (s := ',') hends.1, List.reverse_reverse, ih text' (.fieldStart _)]
    simp

lemma quoteField_ne_empty {text : String} (h : text ≠ "") : quoteField text ≠ "" := by
  rw [quoteField]
  split
  · simp
  · exact h

/-- A record whose first field is not empty is not an empty line. -/
lemma writeRecord_cons {text : String} (h : text ≠ "") (more : List String) :
    writeRecord (text :: more) = ",".intercalate ((text :: more).map quoteField) := by
  have hfirst := quoteField_ne_empty h
  have hline : ",".intercalate ((text :: more).map quoteField) ≠ "" := by
    cases more <;> simp [hfirst]
  rw [writeRecord]
  simp only [hline, if_false]

/-- The first field is not empty and does not begin like a comment. -/
def BeginsPlainly (record : List String) : Prop :=
  ∃ c s more, record = String.ofList (c :: s) :: more ∧ c ≠ '#'

lemma ofList_cons_ne_empty (c : Char) (s : List Char) : String.ofList (c :: s) ≠ "" := by
  simp

lemma fieldsFrom_writeRecord (h : BeginsPlainly record) (rest : List Char) :
    fieldsFrom .between [] [] ((writeRecord record).toList ++ '\n' :: rest) =
      record.map String.toList :: fieldsFrom .between [] [] rest := by
  obtain ⟨c, s, more, rfl, hc⟩ := h
  have hadmits : Mode.between.Admits (String.ofList (c :: s)).toList := by
    rw [String.toList_ofList]
    exact .between hc
  rw [writeRecord_cons (ofList_cons_ne_empty c s)]
  exact fieldsFrom_intercalate _ more hadmits rest

lemma toList_write_cons (record : List String) (records : List (List String)) :
    (write (record :: records)).toList =
      (writeRecord record).toList ++ '\n' :: (write records).toList := by
  simp [write, Text.ofLines]

/-- What is written is read back. -/
theorem fieldsFrom_write (h : ∀ record ∈ records, BeginsPlainly record) (rest : List Char) :
    fieldsFrom .between [] [] ((write records).toList ++ rest) =
      records.map (fun record => record.map String.toList) ++ fieldsFrom .between [] [] rest := by
  induction records with
  | nil => rfl
  | cons record records ih =>
    obtain ⟨hrecord, hrecords⟩ := List.forall_mem_cons.1 h
    rw [toList_write_cons, List.append_assoc, List.cons_append, fieldsFrom_writeRecord hrecord,
      ih hrecords, List.map_cons, List.cons_append]

/-! ### The first character -/

lemma exists_quoteField_eq_cons (c : Char) (s : List Char) :
    ∃ d t, (quoteField (String.ofList (c :: s))).toList = d :: t ∧ (d = '\x22' ∨ d = c) := by
  rw [quoteField]
  split
  · refine ⟨'\x22', doubleQuotes (c :: s) ++ ['\x22'], ?_, Or.inl rfl⟩
    simp
  · exact ⟨c, s, String.toList_ofList, Or.inr rfl⟩

/-- A record begins with the first character of its first field, or with a quote. -/
lemma exists_writeRecord_eq_cons (c : Char) (s : List Char) (more : List String) :
    ∃ d t, (writeRecord (String.ofList (c :: s) :: more)).toList = d :: t ∧
      (d = '\x22' ∨ d = c) := by
  obtain ⟨d, t, hfield, hd⟩ := exists_quoteField_eq_cons c s
  rw [writeRecord_cons (ofList_cons_ne_empty c s)]
  cases more with
  | nil =>
    rw [List.map_singleton, String.intercalate_singleton]
    exact ⟨d, t, hfield, hd⟩
  | cons text more =>
    rw [toList_intercalate_cons_cons, hfield]
    exact ⟨d, _, rfl, hd⟩

end TruthTables.Csv
