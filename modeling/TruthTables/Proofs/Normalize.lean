import TruthTables.Proofs.Blank
import TruthTables.Proofs.Header

/-!
# Texts of tokens

Between blank characters and parentheses a text consists of words. Main statement: the text of a
token is read as that token, and the normalized text of the tokens of a text as these tokens.
-/

namespace TruthTables

open Text

variable {s : List Char} {c : Char} {word source : String} {t : Token} {ts : List Token}

/-! ### Words between parentheses -/

/-- Words consist of such characters. -/
def isWordChar (c : Char) : Bool :=
  !isBlank c && !isParen c

lemma isWordChar_eq_false_iff : isWordChar c = false ↔ isBlank c ∨ isParen c := by
  simp [isWordChar, imp_iff_not_or]

lemma isWordChar_iff : isWordChar c ↔ isBlank c = false ∧ isParen c = false := by
  simp [isWordChar]

lemma isBlank_space : isBlank ' ' := by decide

/-- One or more characters, none of them blank or a parenthesis. -/
def IsWord (word : String) : Prop :=
  word ≠ "" ∧ word.toList.all isWordChar

instance (word : String) : Decidable (IsWord word) :=
  inferInstanceAs (Decidable (_ ∧ _))

lemma isWord_cons_takeWhile (hc : isWordChar c) (s : List Char) :
    IsWord (String.ofList (c :: s.takeWhile isWordChar)) := by
  refine ⟨by simp, ?_⟩
  rw [String.toList_ofList, List.all_cons, hc, List.all_takeWhile]
  rfl

lemma spaceParens_cons_of_isParen (hc : isParen c) (s : List Char) :
    spaceParens (c :: s) = ' ' :: c :: ' ' :: spaceParens s := by
  rw [spaceParens, List.flatMap_cons, if_pos hc]
  rfl

lemma spaceParens_cons_of_not_isParen (hc : isParen c = false) (s : List Char) :
    spaceParens (c :: s) = c :: spaceParens s := by
  rw [spaceParens, List.flatMap_cons, hc]
  rfl

/-- Blanks are put around parentheses, so no word goes beyond one. -/
lemma takeWhile_spaceParens (s : List Char) :
    (spaceParens s).takeWhile (!isBlank ·) = s.takeWhile isWordChar := by
  induction s with
  | nil => rfl
  | cons c s ih =>
    cases hparen : isParen c with
    | true => simp [spaceParens_cons_of_isParen hparen, isWordChar, hparen, isBlank_space]
    | false =>
      cases hblank : isBlank c <;>
        simp [spaceParens_cons_of_not_isParen hparen, isWordChar, hparen, hblank, ih]

lemma dropWhile_spaceParens (s : List Char) :
    (spaceParens s).dropWhile (!isBlank ·) = spaceParens (s.dropWhile isWordChar) := by
  induction s with
  | nil => rfl
  | cons c s ih =>
    cases hparen : isParen c with
    | true => simp [spaceParens_cons_of_isParen hparen, isWordChar, hparen, isBlank_space]
    | false =>
      cases hblank : isBlank c <;>
        simp [spaceParens_cons_of_not_isParen hparen, isWordChar, hparen, hblank, ih]

@[simp] lemma words_spaceParens_nil : words (spaceParens []) = [] := by
  simp [spaceParens, words]

lemma words_spaceParens_of_isBlank (hc : isBlank c) (s : List Char) :
    words (spaceParens (c :: s)) = words (spaceParens s) := by
  rw [spaceParens_cons_of_not_isParen (not_isParen_of_isBlank hc), words_cons_of_blank hc]

lemma words_spaceParens_of_isParen (hc : isParen c) (s : List Char) :
    words (spaceParens (c :: s)) = [c] :: words (spaceParens s) := by
  rw [spaceParens_cons_of_isParen hc, words_cons_of_blank isBlank_space,
    words_cons_of_not_blank (isBlank_of_isParen hc)]
  simp [isBlank_space, words_cons_of_blank isBlank_space]

lemma words_spaceParens_of_isWordChar (hc : isWordChar c) (s : List Char) :
    words (spaceParens (c :: s)) =
      (c :: s.takeWhile isWordChar) :: words (spaceParens (s.dropWhile isWordChar)) := by
  obtain ⟨hblank, hparen⟩ := isWordChar_iff.1 hc
  rw [spaceParens_cons_of_not_isParen hparen, words_cons_of_not_blank hblank, takeWhile_spaceParens,
    dropWhile_spaceParens]

lemma words_spaceParens_of_run {run : List Char} (hne : run ≠ []) (hrun : ∀ c ∈ run, isWordChar c) :
    words (spaceParens run) = [run] := by
  obtain ⟨c, s, rfl⟩ := List.exists_cons_of_ne_nil hne
  obtain ⟨hc, hs⟩ := List.forall_mem_cons.1 hrun
  rw [words_spaceParens_of_isWordChar hc, List.takeWhile_eq_self_iff.2 hs,
    List.dropWhile_eq_nil_iff.2 hs, words_spaceParens_nil]

/-- Induction on the way a text is cut at blanks and parentheses. -/
@[elab_as_elim]
theorem scan_induction {motive : List Char → Prop} (nil : motive [])
    (blank : ∀ c s, isBlank c → motive s → motive (c :: s))
    (paren : ∀ c s, isParen c → motive s → motive (c :: s))
    (word : ∀ c s, isWordChar c → motive (s.dropWhile isWordChar) → motive (c :: s))
    (s : List Char) : motive s := by
  match s with
  | [] => exact nil
  | c :: s =>
    cases hblank : isBlank c with
    | true => exact blank c s hblank (scan_induction nil blank paren word s)
    | false =>
      cases hparen : isParen c with
      | true => exact paren c s hparen (scan_induction nil blank paren word s)
      | false =>
        have hword : isWordChar c = true := by simp [isWordChar, hblank, hparen]
        exact word c s hword (scan_induction nil blank paren word (s.dropWhile isWordChar))
termination_by s.length
decreasing_by
  · exact Nat.lt_succ_of_le (List.dropWhile_sublist isWordChar).length_le
  · exact Nat.lt_succ_self _
  · exact Nat.lt_succ_self _

lemma mem_words_spaceParens {run : List Char} (h : run ∈ words (spaceParens s)) :
    (∃ c, isParen c ∧ run = [c]) ∨ IsWord (String.ofList run) := by
  induction s using scan_induction with
  | nil => simp at h
  | blank c s hc ih =>
    rw [words_spaceParens_of_isBlank hc] at h
    exact ih h
  | paren c s hc ih =>
    rw [words_spaceParens_of_isParen hc] at h
    rcases List.mem_cons.1 h with rfl | h
    · exact Or.inl ⟨c, hc, rfl⟩
    · exact ih h
  | word c s hc ih =>
    rw [words_spaceParens_of_isWordChar hc] at h
    rcases List.mem_cons.1 h with rfl | h
    · exact Or.inr (isWord_cons_takeWhile hc s)
    · exact ih h

/-! ### Tokens -/

lemma tokenize_eq_nil_iff : tokenize source = [] ↔ AllBlank source.toList := by
  rw [tokenize, List.map_eq_nil_iff]
  generalize source.toList = s
  induction s using scan_induction with
  | nil => simp [AllBlank]
  | blank c s hc ih =>
    rw [words_spaceParens_of_isBlank hc, ih]
    simp [AllBlank, hc]
  | paren c s hc ih =>
    rw [words_spaceParens_of_isParen hc]
    simp [AllBlank, isBlank_of_isParen hc]
  | word c s hc ih =>
    rw [words_spaceParens_of_isWordChar hc]
    simp [AllBlank, (isWordChar_iff.1 hc).1]

lemma tokenize_of_isWord (h : IsWord word) : tokenize word = [Token.ofWord word] := by
  obtain ⟨hne, hchars⟩ := h
  rw [tokenize, words_spaceParens_of_run (mt String.toList_eq_nil_iff.1 hne)
    (List.all_eq_true.1 hchars), List.map_singleton, String.ofList_toList]

lemma tokenize_of_isParen (hc : isParen c) :
    tokenize (String.ofList [c]) = [Token.ofWord (String.ofList [c])] := by
  rw [tokenize, String.toList_ofList, words_spaceParens_of_isParen hc, words_spaceParens_nil,
    List.map_singleton]

/-- A word is a connective or a name, and no parenthesis. -/
lemma ofWord_of_isWord (h : IsWord word) :
    Token.ofWord word = ((Connective.ofSpelling? word).map Token.connective).getD (.name word) := by
  have hopen : word ≠ "(" := by
    rintro rfl
    exact absurd h (by decide)
  have hclose : word ≠ ")" := by
    rintro rfl
    exact absurd h (by decide)
  rw [Token.ofWord, if_neg hopen, if_neg hclose]
  cases Connective.ofSpelling? word <;> rfl

lemma isWord_canonical (op : Connective) : IsWord op.canonical := by
  cases op <;> decide

/-- What a token of a text can be. -/
lemma cases_of_mem_tokenize (h : t ∈ tokenize source) :
    t = .openParen ∨ t = .closeParen ∨ (∃ op, t = .connective op) ∨
      ∃ word, t = .name word ∧ IsWord word ∧ Connective.ofSpelling? word = none := by
  obtain ⟨run, hrun, rfl⟩ := List.mem_map.1 h
  rcases mem_words_spaceParens hrun with ⟨c, hc, rfl⟩ | hword
  · simp only [isParen, Bool.or_eq_true, decide_eq_true_eq] at hc
    rcases hc with rfl | rfl
    · exact Or.inl rfl
    · exact Or.inr (Or.inl rfl)
  · rw [ofWord_of_isWord hword]
    cases hop : Connective.ofSpelling? (String.ofList run) with
    | some op => exact Or.inr (Or.inr (Or.inl ⟨op, rfl⟩))
    | none => exact Or.inr (Or.inr (Or.inr ⟨_, rfl, hword, hop⟩))

lemma isWord_of_mem_tokenize (h : .name word ∈ tokenize source) : IsWord word := by
  rcases cases_of_mem_tokenize h with h | h | ⟨op, h⟩ | ⟨_, h, hword, -⟩
  · cases h
  · cases h
  · cases h
  · cases h
    exact hword

/-- The text of a token is read as that token. -/
theorem tokenize_text (h : t ∈ tokenize source) : tokenize t.text = [t] := by
  rcases cases_of_mem_tokenize h with rfl | rfl | ⟨op, rfl⟩ | ⟨word, rfl, hword, hnone⟩
  · exact tokenize_of_isParen (c := '(') rfl
  · exact tokenize_of_isParen (c := ')') rfl
  · have hop : Connective.ofSpelling? op.canonical = some op :=
      Connective.ofSpelling?_of_mem _ List.mem_cons_self
    rw [Token.text, tokenize_of_isWord (isWord_canonical op),
      ofWord_of_isWord (isWord_canonical op), hop]
    rfl
  · rw [Token.text, tokenize_of_isWord hword, ofWord_of_isWord hword, hnone]
    rfl

/-! ### Normalized text -/

lemma tokenize_append_space (a b : String) :
    tokenize (a ++ " " ++ b) = tokenize a ++ tokenize b := by
  have hlist : (a ++ " " ++ b).toList = a.toList ++ ' ' :: b.toList := by simp
  rw [tokenize, hlist, spaceParens_append,
    spaceParens_cons_of_not_isParen (not_isParen_of_isBlank isBlank_space),
    words_append_blank_cons isBlank_space, List.map_append]
  rfl

/-- Tokens that are read from their texts are read from their normalized text. -/
theorem tokenize_normalize (h : ∀ t ∈ ts, tokenize t.text = [t]) :
    tokenize (normalize ts) = ts := by
  induction ts with
  | nil => simp [normalize, tokenize]
  | cons t ts ih =>
    obtain ⟨ht, hts⟩ := List.forall_mem_cons.1 h
    cases ts with
    | nil => rw [normalize, List.map_singleton, String.intercalate_singleton, ht]
    | cons u us =>
      rw [normalize, List.map_cons, List.map_cons, String.intercalate_cons_cons,
        tokenize_append_space, ht]
      exact congrArg (t :: ·) (ih hts)

lemma tokenize_normalize_tokenize (source : String) :
    tokenize (normalize (tokenize source)) = tokenize source :=
  tokenize_normalize fun _ ht => tokenize_text ht

lemma normalize_tokenize_inj {a b : String} :
    normalize (tokenize a) = normalize (tokenize b) ↔ tokenize a = tokenize b := by
  constructor
  · intro h
    rw [← tokenize_normalize_tokenize a, h, tokenize_normalize_tokenize]
  · intro h
    rw [h]

/-- Formulas have the same tokens exactly if their tokens have the same normalized text. -/
lemma Formula.normalize_tokens_inj {f g : Formula} :
    normalize f.tokens = normalize g.tokens ↔ f.tokens = g.tokens := by
  rw [f.tokens_eq, g.tokens_eq]
  exact normalize_tokenize_inj

/-- The normalized text of a text has the tokens of the text, so two texts have the same tokens
exactly if their normalized texts are the same, and normalizing again changes nothing. A header can
tell its columns apart by their tokens or by their normalized texts. -/
theorem normalize_determines_tokens (a b : String) :
    tokenize (normalize (tokenize a)) = tokenize a ∧
    (tokenize a = tokenize b ↔ normalize (tokenize a) = normalize (tokenize b)) ∧
    normalize (tokenize (normalize (tokenize a))) = normalize (tokenize a) ∧
    (∀ (header : Header) (f : Formula), header.push? f = none ↔
      ∃ e ∈ header.entries, normalize e.tokens = normalize f.tokens) ∧
    ∀ texts, (∃ header, Header.ofTexts texts = .ok header) ↔
      (∀ source ∈ texts, ∃ f, Formula.parse source = .ok f) ∧
        (texts.map fun source => normalize (tokenize source)).Nodup := by
  refine ⟨tokenize_normalize_tokenize a, normalize_tokenize_inj.symm, ?_, ?_, ?_⟩
  · rw [tokenize_normalize_tokenize]
  · intro header f
    simp only [Header.push?_eq_none_iff, Formula.normalize_tokens_inj]
  · intro texts
    have hnodup : (texts.map fun source => normalize (tokenize source)).Nodup ↔
        (texts.map tokenize).Nodup := by
      simp only [List.Nodup, List.pairwise_map, ne_eq, normalize_tokenize_inj]
    rw [hnodup, Header.exists_ofTexts_iff]
    exact ⟨fun h => ⟨h.exists_parse, h.nodup⟩, fun h => ⟨h.1, h.2⟩⟩

end TruthTables
