import Mathlib.Data.List.TakeWhile
import Mathlib.Tactic.Common
import TruthTables.Token

/-!
# Blank characters, continued

How trimming and cutting into words behave on concatenated texts. Main statement: blank characters
at the ends of a text make no difference to its tokens.
-/

namespace TruthTables.Text

variable {s t u : List Char} {c : Char}

/-- The first character is there and is not blank. -/
def BeginsVisibly (text : String) : Prop :=
  ∃ c s, text.toList = c :: s ∧ isBlank c = false

/-- The last character is there and is not blank. -/
def EndsVisibly (text : String) : Prop :=
  ∃ s c, text.toList = s ++ [c] ∧ isBlank c = false

/-- All characters are blank. -/
def AllBlank (s : List Char) : Prop :=
  ∀ c ∈ s, isBlank c

lemma AllBlank.reverse (h : AllBlank s) : AllBlank s.reverse :=
  fun c hc => h c (List.mem_reverse.1 hc)

/-! ### Trimming -/

lemma trimStart_append (hs : AllBlank s) (t : List Char) : trimStart (s ++ t) = trimStart t :=
  List.dropWhile_append_of_pos hs

lemma trimEnd_append (ht : AllBlank t) (s : List Char) : trimEnd (s ++ t) = trimEnd s := by
  rw [trimEnd, List.reverse_append]
  exact congrArg List.reverse (List.dropWhile_append_of_pos ht.reverse)

lemma trimStart_eq_nil_iff : trimStart s = [] ↔ AllBlank s := by
  rw [trimStart, List.dropWhile_eq_nil_iff]
  rfl

lemma trim_of_allBlank (h : AllBlank s) : trim s = [] := by
  rw [trim, trimStart_eq_nil_iff.2 h]
  rfl

/-- Blank characters at the ends are trimmed. -/
theorem trim_append (hs : AllBlank s) (hu : AllBlank u) (t : List Char) :
    trim (s ++ t ++ u) = trim t := by
  rw [trim, List.append_assoc, trimStart_append hs, trimStart, List.dropWhile_append]
  split
  · rename_i hnil
    rw [trim, trimStart, List.isEmpty_iff.1 hnil]
    exact congrArg trimEnd (trimStart_eq_nil_iff.2 hu)
  · exact trimEnd_append hu _

/-- A text is its trimmed form with blank characters around it. -/
lemma exists_eq_append_trim (s : List Char) :
    ∃ before after, AllBlank before ∧ AllBlank after ∧ s = before ++ trim s ++ after := by
  refine ⟨s.takeWhile isBlank, ((trimStart s).reverse.takeWhile isBlank).reverse, ?_, ?_, ?_⟩
  · exact fun c hc => List.mem_takeWhile_imp hc
  · exact fun c hc => List.mem_takeWhile_imp (List.mem_reverse.1 hc)
  · have hstart : trimStart s =
        trim s ++ ((trimStart s).reverse.takeWhile isBlank).reverse := by
      rw [trim, trimEnd, ← List.reverse_append, List.takeWhile_append_dropWhile,
        List.reverse_reverse]
    rw [List.append_assoc, ← hstart, trimStart, List.takeWhile_append_dropWhile]

lemma trimEnd_cons (hc : isBlank c = false) (s : List Char) :
    trimEnd (c :: s) = c :: trimEnd s := by
  rw [trimEnd, trimEnd, List.reverse_cons, List.dropWhile_append]
  split
  · rename_i hnil
    simp [hc, List.isEmpty_iff.1 hnil]
  · rw [List.reverse_append]
    rfl

lemma trimEnd_eq_nil_iff : trimEnd s = [] ↔ AllBlank s := by
  rw [trimEnd, List.reverse_eq_nil_iff, List.dropWhile_eq_nil_iff]
  simp [AllBlank]

/-- Trimming stops at the last character that is not blank. -/
lemma trimEnd_append_of_not_allBlank (s : List Char) (ht : ¬ AllBlank t) :
    trimEnd (s ++ t) = s ++ trimEnd t := by
  rw [← trimEnd_eq_nil_iff, trimEnd, List.reverse_eq_nil_iff] at ht
  rw [trimEnd, List.reverse_append, List.dropWhile_append, if_neg (by simpa using ht),
    List.reverse_append, List.reverse_reverse]
  rfl

lemma trimEnd_subset (s : List Char) : trimEnd s ⊆ s := by
  intro c hc
  rw [trimEnd, List.mem_reverse] at hc
  exact List.mem_reverse.1 ((List.dropWhile_sublist isBlank).subset hc)

/-- A trimmed text does not begin with a blank character. -/
lemma isBlank_of_trim_eq_cons (h : trim s = c :: t) : isBlank c = false := by
  cases hstart : trimStart s with
  | nil =>
    rw [trim, hstart] at h
    cases h
  | cons d u =>
    have hd : isBlank d = false := by
      have hhead := List.head?_dropWhile_not isBlank s
      rw [← trimStart, hstart] at hhead
      simpa using hhead
    rw [trim, hstart, trimEnd_cons hd] at h
    obtain ⟨rfl, -⟩ := List.cons.inj h
    exact hd

/-- Nor does it end with one. -/
lemma isBlank_of_trim_eq_concat (h : trim s = t ++ [c]) : isBlank c = false := by
  have hhead := List.head?_dropWhile_not isBlank (trimStart s).reverse
  have hreverse : (trimStart s).reverse.dropWhile isBlank = c :: t.reverse := by
    rwa [trim, trimEnd, List.reverse_eq_iff, List.reverse_append, List.reverse_singleton] at h
  rw [hreverse] at hhead
  simpa using hhead

/-! ### Words -/

lemma words_append_of_allBlank (hs : AllBlank s) (t : List Char) : words (s ++ t) = words t := by
  induction s with
  | nil => rfl
  | cons c s ih =>
    obtain ⟨hc, hs⟩ := List.forall_mem_cons.1 hs
    rw [List.cons_append, words_cons_of_blank hc, ih hs]

lemma words_of_allBlank (hs : AllBlank s) : words s = [] := by
  have h := words_append_of_allBlank hs []
  rwa [List.append_nil, words] at h

/-- No word goes beyond a blank character. -/
theorem words_append_blank_cons (hc : isBlank c) (s t : List Char) :
    words (s ++ c :: t) = words s ++ words t := by
  induction s using words.induct with
  | case1 => rw [List.nil_append, words_cons_of_blank hc, words, List.nil_append]
  | case2 d s hd ih => rw [List.cons_append, words_cons_of_blank hd, words_cons_of_blank hd, ih]
  | case3 d s hd ih =>
    -- the first word of `s` ends in `s` or at the blank behind it
    have hd' : isBlank d = false := by simpa using hd
    have htake : (s ++ c :: t).takeWhile (!isBlank ·) = s.takeWhile (!isBlank ·) := by
      rw [List.takeWhile_append]
      split
      · rename_i hlength
        simp [hc, List.IsPrefix.eq_of_length (List.takeWhile_prefix _) hlength]
      · rfl
    have hdrop : (s ++ c :: t).dropWhile (!isBlank ·) = s.dropWhile (!isBlank ·) ++ c :: t := by
      rw [List.dropWhile_append]
      split
      · rename_i hnil
        simp [hc, List.isEmpty_iff.1 hnil]
      · rfl
    rw [List.cons_append, words_cons_of_not_blank hd', words_cons_of_not_blank hd', htake, hdrop,
      ih, List.cons_append]

lemma words_append_allBlank (ht : AllBlank t) (s : List Char) : words (s ++ t) = words s := by
  cases t with
  | nil => rw [List.append_nil]
  | cons c t =>
    obtain ⟨hc, ht⟩ := List.forall_mem_cons.1 ht
    rw [words_append_blank_cons hc, words_of_allBlank ht, List.append_nil]

end TruthTables.Text

namespace TruthTables

open Text

variable {s t : List Char}

/-! ### Tokens -/

lemma spaceParens_append (s t : List Char) :
    spaceParens (s ++ t) = spaceParens s ++ spaceParens t :=
  List.flatMap_append

lemma not_isParen_of_isBlank {c : Char} (h : isBlank c) : isParen c = false := by
  by_contra hparen
  simp only [isParen, Bool.or_eq_true, decide_eq_true_eq, Bool.not_eq_false] at hparen
  rcases hparen with rfl | rfl
  · exact absurd h (by decide)
  · exact absurd h (by decide)

lemma isBlank_of_isParen {c : Char} (h : isParen c) : isBlank c = false := by
  by_contra hblank
  rw [not_isParen_of_isBlank (by simpa using hblank)] at h
  cases h

lemma spaceParens_of_allBlank (h : AllBlank s) : spaceParens s = s := by
  induction s with
  | nil => rfl
  | cons c s ih =>
    obtain ⟨hc, hs⟩ := List.forall_mem_cons.1 h
    rw [spaceParens, List.flatMap_cons, not_isParen_of_isBlank hc]
    exact congrArg (c :: ·) (ih hs)

/-- A text without blank characters at its ends. -/
def trimText (s : String) : String :=
  String.ofList (trim s.toList)

theorem tokenize_trimText (s : String) : tokenize (trimText s) = tokenize s := by
  obtain ⟨before, after, hbefore, hafter, hs⟩ := exists_eq_append_trim s.toList
  have hwords : words (spaceParens s.toList) = words (spaceParens (trim s.toList)) := by
    conv_lhs => rw [hs]
    rw [spaceParens_append, spaceParens_append, spaceParens_of_allBlank hbefore,
      spaceParens_of_allBlank hafter, words_append_allBlank hafter,
      words_append_of_allBlank hbefore]
  rw [tokenize, tokenize, hwords, trimText, String.toList_ofList]

lemma trim_ne_nil_of_tokenize (s : String) (h : tokenize s ≠ []) : trim s.toList ≠ [] := by
  intro htrim
  rw [← tokenize_trimText, trimText, htrim] at h
  exact h (by simp [tokenize, spaceParens, words])

end TruthTables
