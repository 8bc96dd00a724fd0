import Mathlib.Data.List.TakeWhile
import Mathlib.Tactic.Common
import TruthTables.Proofs.Normalize

/-!
# Scanning in one pass

A scanner that goes over a text once, from left to right, and knows nothing but its position and the
word that it is in. Main statement: it finds the parentheses and the longest words of a text in
order, and these are the tokens of the text.
-/

namespace TruthTables

open Text

/-! ### Lexemes -/

/-- A piece of a text that is one token, with the number of characters in front of it. -/
inductive Lexeme where
  | paren (start : Nat) (c : Char)
  | word (start : Nat) (run : List Char)
deriving DecidableEq, Repr

namespace Lexeme

def start : Lexeme → Nat
  | paren start _ => start
  | word start _ => start

def text : Lexeme → List Char
  | paren _ c => [c]
  | word _ run => run

/-- The number of characters up to its end. -/
def stop (x : Lexeme) : Nat :=
  x.start + x.text.length

def token : Lexeme → Token
  | paren _ c => if c = '(' then .openParen else .closeParen
  | word _ run =>
    match Connective.ofSpelling? (String.ofList run) with
    | some op => .connective op
    | none => .name (String.ofList run)

/-- The same piece of a text with `n` more characters in front of it. -/
def shift (n : Nat) : Lexeme → Lexeme
  | paren start c => paren (n + start) c
  | word start run => word (n + start) run

/-- The piece stands in the text where it says. A word goes on in both directions as long as there
are no blanks and no parentheses. -/
inductive IsIn (s : List Char) : Lexeme → Prop where
  | paren {before after : List Char} {start : Nat} {c : Char} (hs : s = before ++ c :: after)
    (hstart : before.length = start) (hc : isParen c) : IsIn s (paren start c)
  | word {before run after : List Char} {start : Nat} (hs : s = before ++ run ++ after)
    (hstart : before.length = start) (hne : run ≠ []) (hrun : ∀ c ∈ run, isWordChar c)
    (hbefore : ∀ c ∈ before.getLast?, isWordChar c = false)
    (hafter : ∀ c ∈ after.head?, isWordChar c = false) : IsIn s (word start run)

end Lexeme

/-! ### The scanner -/

/-- The word that ends at a position, given backwards, if it has begun. -/
def endWord (position : Nat) (run : List Char) : List Lexeme :=
  if run = [] then [] else [.word (position - run.length) run.reverse]

/-- The lexemes of the rest of a text behind `position` characters, the last of which are the
beginning of a word, given backwards. -/
def scanFrom (position : Nat) (run : List Char) : List Char → List Lexeme
  | [] => endWord position run
  | c :: s =>
    if isWordChar c then scanFrom (position + 1) (c :: run) s
    else if isParen c then
      endWord position run ++ .paren position c :: scanFrom (position + 1) [] s
    else endWord position run ++ scanFrom (position + 1) [] s

/-- The lexemes of a text in order. -/
def scan (s : List Char) : List Lexeme :=
  scanFrom 0 [] s

/-! ### Cutting a text into words -/

section

variable {s : List Char} {c d : Char}

/-- No word goes beyond a blank or a parenthesis. -/
lemma words_spaceParens_append_cons (hc : isWordChar c = false) (s t : List Char) :
    words (spaceParens (s ++ c :: t)) = words (spaceParens s) ++ words (spaceParens (c :: t)) := by
  rcases isWordChar_eq_false_iff.1 hc with hblank | hparen
  · rw [spaceParens_append, spaceParens_cons_of_not_isParen (not_isParen_of_isBlank hblank),
      words_append_blank_cons hblank, words_cons_of_blank hblank]
  · rw [spaceParens_append, spaceParens_cons_of_isParen hparen,
      words_append_blank_cons isBlank_space, words_cons_of_blank isBlank_space]

lemma words_spaceParens_cons (hc : isWordChar c = false) (t : List Char) :
    words (spaceParens (c :: t)) = words (spaceParens [c]) ++ words (spaceParens t) := by
  rcases isWordChar_eq_false_iff.1 hc with hblank | hparen
  · simp [words_spaceParens_of_isBlank hblank]
  · simp [words_spaceParens_of_isParen hparen]

/-- One character more in front of a text makes one word more, unless it belongs to the first. -/
lemma length_words_cons_cons (hc : isWordChar c) (d : Char) (t : List Char) :
    (words (spaceParens (c :: d :: t))).length =
      (words (spaceParens (d :: t))).length + if isWordChar d then 0 else 1 := by
  rw [words_spaceParens_of_isWordChar hc]
  cases hd : isWordChar d with
  | true => simp [hd, words_spaceParens_of_isWordChar hd]
  | false => simp [hd]

/-- A word that is cut becomes two. -/
lemma length_words_append (hlast : ∀ c ∈ s.getLast?, isWordChar c) (hne : s ≠ [])
    (hd : isWordChar d) (t : List Char) :
    (words (spaceParens (s ++ d :: t))).length + 1 =
      (words (spaceParens s)).length + (words (spaceParens (d :: t))).length := by
  induction s with
  | nil => exact absurd rfl hne
  | cons c s ih =>
    cases s with
    | nil =>
      have hc : isWordChar c = true := hlast c rfl
      rw [List.cons_append, List.nil_append, length_words_cons_cons hc, if_pos hd,
        words_spaceParens_of_run (List.cons_ne_nil c []) (by simpa using hc)]
      exact Nat.add_comm _ 1
    | cons e s =>
      have ih' := ih (by simpa using hlast) (List.cons_ne_nil _ _)
      rw [List.cons_append] at ih' ⊢
      cases hc : isWordChar c with
      | false =>
        rw [words_spaceParens_cons hc, words_spaceParens_cons hc (e :: s)]
        simp only [List.length_append, List.cons_append] at ih' ⊢
        omega
      | true =>
        rw [List.cons_append, length_words_cons_cons hc, length_words_cons_cons hc]
        omega

end

/-! ### The words that are found -/

section

variable {run : List Char}

lemma map_text_endWord (position : Nat) (hrun : ∀ c ∈ run, isWordChar c) :
    (endWord position run).map Lexeme.text = words (spaceParens run.reverse) := by
  by_cases hnil : run = []
  · simp [hnil, endWord]
  · rw [endWord, if_neg hnil, words_spaceParens_of_run (by simpa using hnil) (by simpa using hrun)]
    rfl

/-- The scanner finds the words of the text that it has the rest of. -/
theorem map_text_scanFrom (s : List Char) (position : Nat) (hrun : ∀ c ∈ run, isWordChar c) :
    (scanFrom position run s).map Lexeme.text = words (spaceParens (run.reverse ++ s)) := by
  induction s generalizing position run with
  | nil => rw [scanFrom, map_text_endWord position hrun, List.append_nil]
  | cons c s ih =>
    rw [scanFrom]
    split
    · -- the run goes on
      rename_i hc
      rw [ih (position + 1) (List.forall_mem_cons.2 ⟨hc, hrun⟩), List.reverse_cons,
        List.append_assoc, List.singleton_append]
    · -- the run ends here
      rename_i hc
      have hc' : isWordChar c = false := by simpa using hc
      have hrest : (scanFrom (position + 1) [] s).map Lexeme.text = words (spaceParens s) :=
        ih (position + 1) (by simp)
      rw [words_spaceParens_append_cons hc', ← map_text_endWord position hrun]
      split
      · rename_i hparen
        rw [words_spaceParens_of_isParen hparen, List.map_append, List.map_cons, hrest]
        rfl
      · rename_i hparen
        have hblank := (isWordChar_eq_false_iff.1 hc').resolve_right hparen
        rw [words_spaceParens_of_isBlank hblank, List.map_append, hrest]

end

/-! ### Where they stand -/

namespace Lexeme

variable {s t run : List Char} {c : Char} {x : Lexeme}

@[simp] lemma start_shift (n : Nat) (x : Lexeme) : (x.shift n).start = n + x.start := by
  cases x <;> rfl

lemma shift_zero (x : Lexeme) : x.shift 0 = x := by
  cases x <;> simp [shift]

lemma shift_shift (m n : Nat) (x : Lexeme) : (x.shift n).shift m = x.shift (m + n) := by
  cases x <;> simp [shift, Nat.add_assoc]

lemma isIn_run_iff (hrun : ∀ c ∈ run, isWordChar c) :
    x.IsIn run ↔ run ≠ [] ∧ x = .word 0 run := by
  constructor
  · intro h
    cases h with
    | @paren before after _ c hs _ hc =>
      have hword := hrun c (by simp [hs])
      simp [isWordChar, hc] at hword
    | @word before run' after _ hs hstart hne _ hbefore hafter =>
      -- a maximal run is all of it
      have hbefore' : before = [] := by
        by_contra hne'
        have hlast := hbefore _ (List.getLast?_eq_some_getLast hne')
        rw [hrun _ (by simp [hs])] at hlast
        cases hlast
      have hafter' : after = [] := by
        by_contra hne'
        have hhead := hafter _ (List.head?_eq_some_head hne')
        rw [hrun _ (by simp [hs])] at hhead
        cases hhead
      subst hbefore' hafter' hstart
      simp only [List.nil_append, List.append_nil] at hs
      subst hs
      exact ⟨hne, rfl⟩
  · rintro ⟨hne, rfl⟩
    have hs : run = [] ++ run ++ [] := by simp
    exact .word hs rfl hne hrun (by simp) (by simp)

/-- A text that is written as two parts has each of its characters in one of them. -/
lemma cases_of_append_cons_eq {s t u v : List Char} (h : s ++ c :: t = u ++ v) :
    (∃ e, u = s ++ c :: e ∧ t = e ++ v) ∨ ∃ e, s = u ++ e ∧ v = e ++ c :: t := by
  rcases List.append_eq_append_iff.1 h with ⟨e, rfl, he⟩ | ⟨e, rfl, he⟩
  · cases e with
    | nil => exact Or.inr ⟨[], by simp, by simpa using he.symm⟩
    | cons d e =>
      obtain ⟨rfl, rfl⟩ := List.cons.inj he
      exact Or.inl ⟨e, rfl, rfl⟩
  · exact Or.inr ⟨e, rfl, he⟩

lemma IsIn.append_cons (h : x.IsIn s) (hc : isWordChar c = false) (t : List Char) :
    x.IsIn (s ++ c :: t) := by
  cases h with
  | @paren before after _ p hs hstart hp =>
    have hs' : s ++ c :: t = before ++ p :: (after ++ c :: t) := by simp [hs]
    exact .paren hs' hstart hp
  | @word before run after _ hs hstart hne hrun hbefore hafter =>
    have hs' : s ++ c :: t = before ++ run ++ (after ++ c :: t) := by simp [hs]
    refine .word hs' hstart hne hrun hbefore ?_
    cases after with
    | nil => simpa using hc
    | cons d after => simpa using hafter

lemma IsIn.shift_append_cons (h : x.IsIn t) (hc : isWordChar c = false) (s : List Char) :
    (x.shift (s.length + 1)).IsIn (s ++ c :: t) := by
  cases h with
  | @paren before after _ p hs hstart hp =>
    have hs' : s ++ c :: t = (s ++ c :: before) ++ p :: after := by simp [hs]
    refine .paren hs' ?_ hp
    simp only [List.length_append, List.length_cons]
    omega
  | @word before run after _ hs hstart hne hrun hbefore hafter =>
    have hs' : s ++ c :: t = (s ++ c :: before) ++ run ++ after := by simp [hs]
    refine .word hs' ?_ hne hrun ?_ hafter
    · simp only [List.length_append, List.length_cons]
      omega
    · cases before with
      | nil => simpa using hc
      | cons d before => simpa using hbefore

/-- What stands in a text that has a blank or a parenthesis somewhere stands before it, or is it, or
stands behind it. -/
theorem isIn_append_cons_iff (hc : isWordChar c = false) :
    x.IsIn (s ++ c :: t) ↔
      x.IsIn s ∨ (isParen c ∧ x = .paren s.length c) ∨
        ∃ y : Lexeme, y.IsIn t ∧ x = y.shift (s.length + 1) := by
  constructor
  · intro h
    cases h with
    | @paren before after start p hs hstart hp =>
      rcases cases_of_append_cons_eq hs with ⟨e, rfl, ht⟩ | ⟨e, he, hafter⟩
      · -- behind the separator
        refine Or.inr (Or.inr ⟨.paren e.length p, .paren ht rfl hp, ?_⟩)
        simp only [shift, paren.injEq, ← hstart, List.length_append, List.length_cons, and_true]
        omega
      · -- the separator itself, or in front of it
        cases e with
        | nil =>
          obtain ⟨rfl, rfl⟩ := List.cons.inj hafter
          exact Or.inr (Or.inl ⟨hp, by rw [he, ← hstart, List.append_nil]⟩)
        | cons d e =>
          obtain ⟨rfl, -⟩ := List.cons.inj hafter
          exact Or.inl (.paren he hstart hp)
    | @word before run after start hs hstart hne hrun hbefore hafter =>
      rw [List.append_assoc] at hs
      rcases cases_of_append_cons_eq hs with ⟨e, rfl, ht⟩ | ⟨e, he, hrest⟩
      · -- behind the separator
        refine Or.inr (Or.inr ⟨.word e.length run, ?_, ?_⟩)
        · refine .word (by rw [ht, List.append_assoc]) rfl hne hrun ?_ hafter
          cases e with
          | nil => simp
          | cons d e => simpa using hbefore
        · simp only [shift, word.injEq, ← hstart, List.length_append, List.length_cons, and_true]
          omega
      · rcases cases_of_append_cons_eq hrest.symm with ⟨e', rfl, -⟩ | ⟨e', rfl, rfl⟩
        · -- a run does not go across the separator
          rw [hrun c (by simp)] at hc
          cases hc
        · -- in front of it
          refine Or.inl (.word (by rw [he, List.append_assoc]) hstart hne hrun hbefore ?_)
          cases e' with
          | nil => simp
          | cons d e' => simpa using hafter
  · rintro (h | ⟨hparen, rfl⟩ | ⟨y, hy, rfl⟩)
    · exact h.append_cons hc t
    · exact .paren rfl rfl hparen
    · exact hy.shift_append_cons hc s

end Lexeme

/-! ### What the scanner finds -/

section

variable {s run : List Char} {c : Char} {x : Lexeme} {position : Nat}

lemma mem_endWord_iff (hrun : ∀ c ∈ run, isWordChar c) :
    x ∈ endWord position run ↔
      ∃ y : Lexeme, y.IsIn run.reverse ∧ x = y.shift (position - run.length) := by
  have hrun' : ∀ c ∈ run.reverse, isWordChar c := by simpa using hrun
  simp only [Lexeme.isIn_run_iff hrun', endWord, List.reverse_ne_nil_iff]
  by_cases hnil : run = []
  · simp [hnil]
  · simp [hnil, Lexeme.shift]

lemma mem_scanFrom_cons_iff (hc : isWordChar c = false) :
    x ∈ scanFrom position run (c :: s) ↔
      x ∈ endWord position run ∨ (isParen c ∧ x = .paren position c) ∨
        x ∈ scanFrom (position + 1) [] s := by
  rw [scanFrom, if_neg (by simp [hc])]
  split <;> simp [*]

/-- The scanner finds what stands in the text that it has the rest of, and nothing else. -/
theorem mem_scanFrom_iff (hrun : ∀ c ∈ run, isWordChar c) (hlength : run.length ≤ position) :
    x ∈ scanFrom position run s ↔
      ∃ y : Lexeme, y.IsIn (run.reverse ++ s) ∧ x = y.shift (position - run.length) := by
  induction s generalizing position run with
  | nil => rw [scanFrom, mem_endWord_iff hrun, List.append_nil]
  | cons c s ih =>
    cases hc : isWordChar c with
    | true =>
      rw [scanFrom, if_pos hc, ih (List.forall_mem_cons.2 ⟨hc, hrun⟩) (by simpa using hlength),
        List.reverse_cons, List.append_assoc, List.singleton_append, List.length_cons,
        Nat.add_sub_add_right]
    | false =>
      rw [mem_scanFrom_cons_iff hc, mem_endWord_iff hrun, ih (by simp) (Nat.zero_le _)]
      simp only [Lexeme.isIn_append_cons_iff hc, or_and_right, exists_or]
      have hstart : position - run.length + run.length = position := Nat.sub_add_cancel hlength
      refine or_congr Iff.rfl (or_congr ?_ ?_)
      · -- the separator itself
        simp [Lexeme.shift, hstart]
      · -- what is behind it
        constructor
        · rintro ⟨y, hy, rfl⟩
          refine ⟨_, ⟨y, hy, rfl⟩, ?_⟩
          rw [Lexeme.shift_shift, List.length_reverse, ← Nat.add_assoc, hstart]
          rfl
        · rintro ⟨-, ⟨y, hy, rfl⟩, rfl⟩
          refine ⟨y, hy, ?_⟩
          rw [Lexeme.shift_shift, List.length_reverse, ← Nat.add_assoc, hstart]
          rfl

lemma stop_of_mem_endWord (hlength : run.length ≤ position) (h : x ∈ endWord position run) :
    x.stop = position := by
  by_cases hnil : run = []
  · simp [endWord, hnil] at h
  · rw [endWord, if_neg hnil, List.mem_singleton] at h
    rw [h, Lexeme.stop, Lexeme.start, Lexeme.text, List.length_reverse]
    exact Nat.sub_add_cancel hlength

lemma le_start_of_mem_scanFrom (h : x ∈ scanFrom position [] s) : position ≤ x.start := by
  obtain ⟨y, -, rfl⟩ := (mem_scanFrom_iff (by simp) (Nat.zero_le _)).1 h
  simp

/-- The scanner goes from left to right. -/
theorem pairwise_scanFrom (s : List Char) (hrun : ∀ c ∈ run, isWordChar c)
    (hlength : run.length ≤ position) :
    (scanFrom position run s).Pairwise fun x y => x.stop ≤ y.start := by
  induction s generalizing position run with
  | nil =>
    rw [scanFrom, endWord]
    split <;> simp
  | cons c s ih =>
    have hend : (endWord position run).Pairwise fun x y => x.stop ≤ y.start := by
      rw [endWord]
      split <;> simp
    have hrest : (scanFrom (position + 1) [] s).Pairwise fun x y => x.stop ≤ y.start :=
      ih (by simp) (Nat.zero_le _)
    have hbehind : ∀ x ∈ scanFrom (position + 1) [] s, position + 1 ≤ x.start :=
      fun x hx => le_start_of_mem_scanFrom hx
    rw [scanFrom]
    split
    · rename_i hc
      exact ih (List.forall_mem_cons.2 ⟨hc, hrun⟩) (by simpa using hlength)
    · split
      · -- a parenthesis, at which the run ends
        refine List.pairwise_append.2 ⟨hend, List.pairwise_cons.2 ⟨hbehind, hrest⟩, ?_⟩
        intro x hx y hy
        rw [stop_of_mem_endWord hlength hx]
        rcases List.mem_cons.1 hy with rfl | hy
        · exact Nat.le_refl _
        · exact Nat.le_of_succ_le (hbehind y hy)
      · -- a blank
        refine List.pairwise_append.2 ⟨hend, hrest, ?_⟩
        intro x hx y hy
        rw [stop_of_mem_endWord hlength hx]
        exact Nat.le_of_succ_le (hbehind y hy)

end

/-! ### The tokens of a text -/

section

variable {s a b : List Char} {x : Lexeme}

lemma mem_scan_iff : x ∈ scan s ↔ x.IsIn s := by
  rw [scan, mem_scanFrom_iff (by simp) (Nat.zero_le _)]
  constructor
  · rintro ⟨y, hy, rfl⟩
    simpa [Lexeme.shift_zero] using hy
  · intro h
    exact ⟨x, h, by simp [Lexeme.shift_zero]⟩

lemma ofWord_eq_token (h : x.IsIn s) : Token.ofWord (String.ofList x.text) = x.token := by
  cases h with
  | paren _ _ hc =>
    simp only [isParen, Bool.or_eq_true, decide_eq_true_eq] at hc
    rcases hc with rfl | rfl <;> rfl
  | @word _ run _ _ _ _ hne hrun =>
    have hword : IsWord (String.ofList run) := ⟨by simpa using hne, by simpa using hrun⟩
    show Token.ofWord (String.ofList run) = _
    rw [ofWord_of_isWord hword, Lexeme.token]
    split <;> simp_all

/-- No word goes on from the first text to the second. -/
def IsApart (a b : List Char) : Prop :=
  (∀ c ∈ a.getLast?, isBlank c ∨ isParen c) ∨ ∀ c ∈ b.head?, isBlank c ∨ isParen c

lemma IsApart.words_append (h : IsApart a b) :
    words (spaceParens (a ++ b)) = words (spaceParens a) ++ words (spaceParens b) := by
  rcases h with hlast | hhead
  · rcases List.eq_nil_or_concat a with rfl | ⟨a, c, rfl⟩
    · simp
    · have hc : isWordChar c = false := isWordChar_eq_false_iff.2 (hlast c (by simp))
      rw [List.concat_eq_append, List.append_assoc, List.singleton_append,
        words_spaceParens_append_cons hc, words_spaceParens_append_cons hc,
        words_spaceParens_cons hc b, List.append_assoc]
  · cases b with
    | nil => simp
    | cons d b =>
      exact words_spaceParens_append_cons (isWordChar_eq_false_iff.2 (hhead d rfl)) a b

/-- Where a word is cut, the number of words shows it. -/
lemma isApart_of_length_words
    (h : (words (spaceParens (a ++ b))).length =
      (words (spaceParens a)).length + (words (spaceParens b)).length) : IsApart a b := by
  by_contra hword
  simp only [IsApart, ← isWordChar_eq_false_iff, not_or, not_forall, Bool.not_eq_false] at hword
  obtain ⟨⟨c, hlast, hc⟩, d, hhead, hd⟩ := hword
  obtain ⟨t, rfl⟩ := List.head?_eq_some_iff.1 hhead
  have hwords := length_words_append (s := a) (by simp_all) (by rintro rfl; cases hlast) hd t
  omega

/-- The tokens of a text are what a scan finds: the parentheses and the words that are as long as
can be, in order, and nothing else. So a text can be cut without harm to its tokens exactly where
this does not go through a word. -/
theorem tokenize_eq_scan (source : String) :
    tokenize source = (scan source.toList).map Lexeme.token ∧
    (∀ x, x ∈ scan source.toList ↔ x.IsIn source.toList) ∧
    ((scan source.toList).Pairwise fun x y => x.stop ≤ y.start) ∧
    ∀ a b, tokenize (a ++ b) = tokenize a ++ tokenize b ↔ IsApart a.toList b.toList := by
  refine ⟨?_, fun x => mem_scan_iff, pairwise_scanFrom _ (by simp) (Nat.zero_le _), ?_⟩
  · have hwords : (scan source.toList).map Lexeme.text = words (spaceParens source.toList) :=
      map_text_scanFrom _ 0 (by simp)
    rw [tokenize, ← hwords, List.map_map]
    exact List.map_congr_left fun x hx => ofWord_eq_token (mem_scan_iff.1 hx)
  · intro a b
    rw [tokenize, tokenize, tokenize, String.toList_append]
    constructor
    · intro h
      apply isApart_of_length_words
      simpa using congrArg List.length h
    · intro h
      rw [h.words_append, List.map_append]

example : scan "p)\u00a0not q".toList =
    [.word 0 ['p'], .paren 1 ')', .word 3 ['n', 'o', 't'], .word 7 ['q']] := by decide

end

end TruthTables
