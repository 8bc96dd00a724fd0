import TruthTables.Proofs.Bracketing
import TruthTables.Proofs.Csv.Headers
import TruthTables.Proofs.Csv.Writer

/-!
# Files in parts

Behind a line feed outside of quoted fields the reader is where it began: no record is open, and
nothing is left of the last one. Main statement: of a text that ends with such a line feed, and of
what follows it, the headers are read as if both were files of their own.
-/

namespace TruthTables.Csv

open Text

variable {σ : Type} [Symbol σ] {mode mode' : Mode} {m : Mark}

/-! ### Modes -/

lemma isInRecord_of_skip (h : mode.action m = .skip mode') (hmode' : mode'.isInRecord = false) :
    mode.isInRecord = false := by
  cases mode <;> cases m <;> cases h <;> first | rfl | cases hmode'

lemma isInRecord_of_take (h : mode.action m = .take mode') : mode'.isInRecord = true := by
  cases mode <;> cases m <;> cases h <;> rfl

/-- Only a quote opens a quoted field. -/
lemma ne_quoted_of_action (hmode : mode ≠ .quoted) (hm : m ≠ .quote)
    (h : mode.action m = .skip mode' ∨ mode.action m = .take mode' ∨
      mode.action m = .endRecord mode') : mode' ≠ .quoted := by
  rintro rfl
  cases mode <;> cases m <;> rcases h with h | h | h <;> cases h <;> contradiction

lemma action_comma (h : mode ≠ .quoted) :
    mode.action .comma = .endField ∨ mode.action .comma = .skip mode := by
  cases mode with
  | quoted => contradiction
  | comment => exact Or.inr rfl
  | between | fieldStart | unquoted | quoteInQuoted | afterReturn => exact Or.inl rfl

lemma action_lineFeed (h : mode ≠ .quoted) :
    mode.action .lineFeed = .skip .between ∨ mode.action .lineFeed = .endRecord .between := by
  cases mode with
  | quoted => contradiction
  | between | comment | afterReturn => exact Or.inl rfl
  | fieldStart | unquoted | quoteInQuoted => exact Or.inr rfl

lemma action_comment (h : m ≠ .lineFeed) : Mode.comment.action m = .skip .comment := by
  cases m with
  | lineFeed => contradiction
  | comma | quote | carriageReturn | numberSign | ordinary => rfl

/-! ### Readers -/

namespace Reader

variable {r : Reader σ} {s : σ} {input rest : List σ}

/-- The reader behind some input. -/
def after (r : Reader σ) (input : List σ) : Reader σ :=
  input.foldl (fun r s => (r.step s).1) r

@[simp] lemma after_nil (r : Reader σ) : r.after [] = r := rfl

@[simp] lemma after_cons (r : Reader σ) (s : σ) (input : List σ) :
    r.after (s :: input) = (r.step s).1.after input := rfl

lemma after_append (r : Reader σ) (input rest : List σ) :
    r.after (input ++ rest) = (r.after input).after rest :=
  List.foldl_append

/-- Where no record is open, nothing of one is left. -/
def IsTidy (r : Reader σ) : Prop :=
  r.mode.isInRecord = false → r.fields = [] ∧ r.field = []

lemma IsTidy.step (h : r.IsTidy) (s : σ) : (r.step s).1.IsTidy := by
  rw [Reader.step]
  cases haction : r.mode.action (Symbol.mark s) with
  | skip mode => exact fun hmode => h (isInRecord_of_skip haction hmode)
  | take mode =>
    intro hmode
    rw [isInRecord_of_take haction] at hmode
    cases hmode
  | endField =>
    intro hmode
    cases hmode
  | endRecord mode => exact fun _ => ⟨rfl, rfl⟩

lemma IsTidy.after (h : r.IsTidy) (input : List σ) : (r.after input).IsTidy := by
  induction input generalizing r with
  | nil => exact h
  | cons s input ih => exact ih (h.step s)

lemma mode_step_lineFeed (hs : Symbol.mark s = .lineFeed) (h : r.mode ≠ .quoted) :
    (r.step s).1.mode = .between := by
  rw [step, hs]
  rcases action_lineFeed h with haction | haction <;> rw [haction]

lemma mode_step_ne_quoted (hs : Symbol.mark s ≠ .quote) (h : r.mode ≠ .quoted) :
    (r.step s).1.mode ≠ .quoted := by
  rw [step]
  cases haction : r.mode.action (Symbol.mark s) with
  | skip mode => exact ne_quoted_of_action h hs (Or.inl haction)
  | take mode => exact ne_quoted_of_action h hs (Or.inr (Or.inl haction))
  | endField => exact fun hmode => by cases hmode
  | endRecord mode => exact ne_quoted_of_action h hs (Or.inr (Or.inr haction))

lemma mode_after_ne_quoted (hinput : ∀ s ∈ input, Symbol.mark s ≠ .quote)
    (h : r.mode ≠ .quoted) : (r.after input).mode ≠ .quoted := by
  induction input generalizing r with
  | nil => exact h
  | cons s input ih =>
    obtain ⟨hs, hinput⟩ := List.forall_mem_cons.1 hinput
    exact ih hinput (mode_step_ne_quoted hs h)

lemma mode_after_of_skip (hinput : ∀ s ∈ input, r.mode.action (Symbol.mark s) = .skip r.mode) :
    (r.after input).mode = r.mode := by
  induction input generalizing r with
  | nil => rfl
  | cons s input ih =>
    obtain ⟨hs, hinput⟩ := List.forall_mem_cons.1 hinput
    have hmode : (r.step s).1.mode = r.mode := by rw [step, hs]
    rw [after_cons, ih (by rwa [hmode]), hmode]

/-- Where no record is open, the input can be cut in two. -/
theorem records_append (h : (r.after input).mode.isInRecord = false) (rest : List σ) :
    r.records (input ++ rest) = r.records input ++ (r.after input).records rest := by
  induction input generalizing r with
  | nil =>
    rw [after_nil] at h
    rw [List.nil_append, records, finish, h]
    rfl
  | cons s input ih =>
    rw [List.cons_append, records, records, after_cons]
    cases hstep : r.step s with
    | mk r' record =>
      rw [after_cons, hstep] at h
      cases record with
      | none => exact ih h
      | some record => exact congrArg (record :: ·) (ih h)

/-- Behind a line feed outside of quoted fields the reader begins anew. -/
lemma map_fields_records_append (htidy : r.IsTidy) (hquoted : (r.after input).mode ≠ .quoted)
    (hs : Symbol.mark s = .lineFeed) (rest : List σ) :
    (r.records (input ++ s :: rest)).map Record.fields =
      (r.records (input ++ [s])).map Record.fields ++ fieldsFrom .between [] [] rest := by
  have hmode : (r.after (input ++ [s])).mode = .between := by
    rw [after_append]
    exact mode_step_lineFeed hs hquoted
  have hclosed : (r.after (input ++ [s])).mode.isInRecord = false := by rw [hmode]; rfl
  obtain ⟨hfields, hfield⟩ := htidy.after (input ++ [s]) hclosed
  rw [List.append_cons, records_append hclosed, List.map_append,
    map_fields_records (r.after (input ++ [s])), hmode, hfields, hfield]

end Reader

/-! ### Characters -/

variable {c d : Char} {s a b : List Char} {fields : List (List Char)} {field : List Char}

lemma mark_ne_quote (h : c ≠ '\x22') : Symbol.mark c ≠ .quote := by
  rw [mark_eq]
  split_ifs <;> first | contradiction | decide

lemma mark_ne_lineFeed (h : c ≠ '\n') : Symbol.mark c ≠ .lineFeed := by
  rw [mark_eq]
  split_ifs <;> first | contradiction | decide

/-! ### Lines -/

/-- The text is empty, or it ends with a line feed that is not inside a quoted field. -/
def EndsLine (s : List Char) : Prop :=
  s = [] ∨ ∃ line, s = line ++ ['\n'] ∧
    (({} : Reader Char).after (withoutMark line)).mode ≠ .quoted

/-- The records of such a text and those of what follows it are the records of the whole. -/
lemma headersOf_append (ha : EndsLine a) (b : List Char) :
    headersOf (withoutMark a ++ b) = headersOf (withoutMark a) ++ headersOf b := by
  have hfields : fieldsFrom .between [] [] (withoutMark a ++ b) =
      fieldsFrom .between [] [] (withoutMark a) ++ fieldsFrom .between [] [] b := by
    rcases ha with rfl | ⟨line, rfl, hquoted⟩
    · rfl
    · -- the first part ends outside of quotes, so the reader starts anew behind it
      have hnew : ({} : Reader Char).IsTidy := fun _ => ⟨rfl, rfl⟩
      have happend := Reader.map_fields_records_append hnew hquoted (s := '\n') rfl b
      rw [map_fields_records, map_fields_records] at happend
      rw [withoutMark_append (by decide), List.append_assoc]
      exact happend
  rw [headersOf, hfields, List.map_append, List.filter_append]
  rfl

/-- A comment, or lines with nothing but blank characters and commas. -/
inductive HoldsNoHeader : List Char → Prop where
  | comment {s : List Char} (h : '\n' ∉ s) : HoldsNoHeader ('#' :: s ++ ['\n'])
  | blank {s : List Char} (h : ∀ c ∈ s, isBlank c ∨ c = ',') : HoldsNoHeader (s ++ ['\n'])

lemma fieldsFrom_comment (h : '\n' ∉ s) :
    fieldsFrom .between [] [] ('#' :: s ++ ['\n']) = [] := by
  have hopen : Mode.between.action (Symbol.mark '#') = .skip .comment := rfl
  have hclose : Mode.comment.action (Symbol.mark '\n') = .skip .between := rfl
  have hrun : ∀ c ∈ s, Mode.comment.action (Symbol.mark c) = .skip .comment := fun c hc =>
    action_comment (mark_ne_lineFeed (ne_of_mem_of_not_mem hc h))
  rw [List.cons_append, fieldsFrom_of_skip hopen, fieldsFrom_skip_run hrun,
    fieldsFrom_of_skip hclose]
  rfl

lemma ne_of_isBlank_or_comma (hc : isBlank c ∨ c = ',') : c ≠ '\x22' ∧ c ≠ '\uFEFF' := by
  constructor
  · rintro rfl
    exact absurd hc (by decide)
  · rintro rfl
    exact absurd hc (by decide)

/-- Blank characters and commas make blank fields. -/
lemma allBlank_of_mem_fieldsFrom (hs : ∀ c ∈ s, isBlank c ∨ c = ',') (hmode : mode ≠ .quoted)
    (hfield : AllBlank field) (hfields : ∀ text ∈ fields, AllBlank text) :
    ∀ texts ∈ fieldsFrom mode fields field s, ∀ text ∈ texts, AllBlank text := by
  induction s generalizing mode fields field with
  | nil =>
    rw [fieldsFrom]
    split
    · simpa [or_imp, forall_and] using ⟨hfields, hfield.reverse⟩
    · simp
  | cons c s ih =>
    obtain ⟨hc, hs⟩ := List.forall_mem_cons.1 hs
    have hquote := mark_ne_quote (ne_of_isBlank_or_comma hc).1
    have hfields' := List.forall_mem_cons.2 ⟨hfield.reverse, hfields⟩
    cases haction : mode.action (Symbol.mark c) with
    | skip mode' =>
      rw [fieldsFrom_of_skip haction]
      exact ih hs (ne_quoted_of_action hmode hquote (Or.inl haction)) hfield hfields
    | take mode' =>
      -- a comma ends the field, so only blanks are taken
      have hblank : isBlank c := by
        refine hc.resolve_right ?_
        rintro rfl
        have hcomma : mode.action .comma = .take mode' := haction
        rcases action_comma hmode with h | h <;> rw [h] at hcomma <;> cases hcomma
      rw [fieldsFrom_of_take haction]
      exact ih hs (ne_quoted_of_action hmode hquote (Or.inr (Or.inl haction)))
        (List.forall_mem_cons.2 ⟨hblank, hfield⟩) hfields
    | endField =>
      rw [fieldsFrom_of_endField haction]
      exact ih hs (by decide) (List.forall_mem_nil _) hfields'
    | endRecord mode' =>
      rw [fieldsFrom_of_endRecord haction]
      refine List.forall_mem_cons.2 ⟨fun text htext => hfields' text (List.mem_reverse.1 htext), ?_⟩
      exact ih hs (ne_quoted_of_action hmode hquote (Or.inr (Or.inr haction)))
        (List.forall_mem_nil _) (List.forall_mem_nil _)

namespace HoldsNoHeader

lemma head?_ne (h : HoldsNoHeader s) (b : List Char) : (s ++ b).head? ≠ some '\uFEFF' := by
  cases h with
  | comment h => simp
  | @blank s h =>
    cases s with
    | nil => simp
    | cons c s => simpa using (ne_of_isBlank_or_comma (h c List.mem_cons_self)).2

lemma withoutMark_eq (h : HoldsNoHeader s) : withoutMark s = s :=
  withoutMark_of_head? (by simpa using h.head?_ne [])

lemma endsLine (h : HoldsNoHeader s) : EndsLine s := by
  have heq := h.withoutMark_eq
  cases h with
  | @comment s h =>
    refine Or.inr ⟨'#' :: s, rfl, ?_⟩
    have hrun : ∀ c ∈ s, Mode.comment.action (Symbol.mark c) = .skip .comment := fun c hc =>
      action_comment (mark_ne_lineFeed (ne_of_mem_of_not_mem hc h))
    have hmode : (({} : Reader Char).after ('#' :: s)).mode = .comment := by
      rw [Reader.after_cons]
      exact Reader.mode_after_of_skip hrun
    rw [withoutMark_of_head? (by simp), hmode]
    decide
  | @blank s h =>
    refine Or.inr ⟨s, rfl, ?_⟩
    rw [withoutMark_append (by decide), List.append_cancel_right_eq] at heq
    rw [heq]
    exact Reader.mode_after_ne_quoted
      (fun c hc => mark_ne_quote (ne_of_isBlank_or_comma (h c hc)).1) (by decide)

lemma headersOf_eq_nil (h : HoldsNoHeader s) : headersOf s = [] := by
  cases h with
  | comment h =>
    rw [headersOf, fieldsFrom_comment h]
    rfl
  | @blank s h =>
    have hline : ∀ c ∈ s ++ ['\n'], isBlank c ∨ c = ',' :=
      List.forall_mem_append.2 ⟨h, List.forall_mem_singleton.2 (by decide)⟩
    have hblank : ∀ texts ∈ fieldsFrom .between [] [] (s ++ ['\n']), ∀ text ∈ texts,
        AllBlank text :=
      allBlank_of_mem_fieldsFrom hline (by decide) (List.forall_mem_nil _) (List.forall_mem_nil _)
    rw [headersOf, List.filter_eq_nil_iff]
    refine List.forall_mem_map.2 fun texts htexts => ?_
    have hempty : (texts.map trim).filter (fun text => !text.isEmpty) = [] := by
      rw [List.filter_eq_nil_iff]
      refine List.forall_mem_map.2 fun text htext => ?_
      rw [trim_of_allBlank (hblank texts htexts text htext)]
      decide
    rw [entriesOf, hempty]
    decide

end HoldsNoHeader

/-! ### Files -/

/-- Reading the text of a file does not fail, whatever the text is. Every header has entries, and
no entry is empty or has blank characters at its ends, so none is refused for being empty. Behind a
line that ends outside of quoted fields a file can be cut: its headers are those of the two parts,
one after the other. So it makes no difference to them whether comments or blank lines stand
there. -/
theorem readHeaders_append :
    (∀ a b, EndsLine a → b.head? ≠ some '\uFEFF' → ∃ before after,
      readHeaders (encode a) = .ok before ∧ readHeaders (encode b) = .ok after ∧
        readHeaders (encode (a ++ b)) = .ok (before ++ after)) ∧
    (∀ a line b, EndsLine a → HoldsNoHeader line → b.head? ≠ some '\uFEFF' →
      readHeaders (encode (a ++ line ++ b)) = readHeaders (encode (a ++ b))) ∧
    ∀ s, ∃ headers, readHeaders (encode s) = .ok headers ∧
      ∀ entries ∈ headers, entries ≠ [] ∧ ∀ entry ∈ entries,
        BeginsVisibly entry ∧ EndsVisibly entry ∧ ¬ Formula.FailsFor entry "empty formula" := by
  refine ⟨?_, ?_, ?_⟩
  · intro a b ha hb
    refine ⟨_, _, readHeaders_encode_eq a, readHeaders_encode hb, ?_⟩
    rw [readHeaders_encode_eq, withoutMark_append hb, headersOf_append ha]
  · intro a line b ha hline hb
    have hskip : headersOf (line ++ b) = headersOf b := by
      have hparts := headersOf_append hline.endsLine b
      rwa [hline.withoutMark_eq, hline.headersOf_eq_nil] at hparts
    rw [readHeaders_encode_eq, readHeaders_encode_eq, List.append_assoc,
      withoutMark_append (hline.head?_ne b), withoutMark_append hb, headersOf_append ha,
      headersOf_append ha, hskip]
  · intro s
    refine ⟨_, readHeaders_encode_eq s, fun entries hmem => ?_⟩
    obtain ⟨hne, decoded, rfl⟩ := exists_of_mem_readHeaders (readHeaders_encode_eq s) hmem
    refine ⟨hne, fun entry hentry => ?_⟩
    have hbegins := beginsVisibly_of_mem_entriesOf hentry
    refine ⟨hbegins, endsVisibly_of_mem_entriesOf hentry, Formula.not_failsFor_empty ?_⟩
    obtain ⟨c, t, hentry, hc⟩ := hbegins
    intro hblank
    rw [hentry] at hblank
    rw [hblank c List.mem_cons_self] at hc
    cases hc

/-- A byte order mark, a comment with a quote that is never closed, and a record with a line feed
inside of its second field. -/
def noteFile : List Char :=
  "\uFEFF# the \x22q\n p ,\x22q,\n\x22\x22r\x22 \r\n".toList

/-- A line without entries and an unquoted field with quotes in it. -/
def ruleFile : List Char :=
  " ,\t,\r\n\u00E9 =>\x22p\x22 \u2003".toList

theorem noteFile_append_ruleFile :
    EndsLine noteFile ∧ HoldsNoHeader "# \x22\n".toList ∧ ruleFile.head? ≠ some '\uFEFF' ∧
      readHeaders (encode noteFile) = .ok [["p", "q,\n\x22r"]] ∧
      readHeaders (encode ruleFile) = .ok [["\u00E9 =>\x22p\x22"]] ∧
      readHeaders (encode (noteFile ++ ruleFile)) =
        .ok [["p", "q,\n\x22r"], ["\u00E9 =>\x22p\x22"]] ∧
      readHeaders (encode (noteFile ++ "# \x22\n".toList ++ ruleFile)) =
        readHeaders (encode (noteFile ++ ruleFile)) := by
  have hnote : EndsLine noteFile := Or.inr ⟨noteFile.dropLast, by decide, by decide +kernel⟩
  have hcomment : HoldsNoHeader "# \x22\n".toList :=
    HoldsNoHeader.comment (s := " \x22".toList) (by decide)
  have hrule : ruleFile.head? ≠ some '\uFEFF' := by decide
  have hbefore : readHeaders (encode noteFile) = .ok [["p", "q,\n\x22r"]] := by
    rw [readHeaders_encode_eq]
    exact congrArg Except.ok (by decide +kernel)
  have hafter : readHeaders (encode ruleFile) = .ok [["\u00E9 =>\x22p\x22"]] := by
    rw [readHeaders_encode_eq]
    exact congrArg Except.ok (by decide +kernel)
  refine ⟨hnote, hcomment, hrule, hbefore, hafter, ?_,
    readHeaders_append.2.1 noteFile _ ruleFile hnote hcomment hrule⟩
  obtain ⟨before, after, hnote', hrule', hboth⟩ :=
    readHeaders_append.1 noteFile ruleFile hnote hrule
  obtain rfl := Except.ok.inj (hbefore.symm.trans hnote')
  obtain rfl := Except.ok.inj (hafter.symm.trans hrule')
  exact hboth

end TruthTables.Csv
