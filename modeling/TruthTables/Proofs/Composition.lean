import TruthTables.Proofs.Fill
import TruthTables.Proofs.Normalize
import TruthTables.Proofs.Substitution

/-!
# Composition of formulas

A formula can be put into another one, in parentheses and in place of a variable. Main statement:
where all columns are single words, this has the value that the other formula has when the variable
gets the value of the one that was put in.
-/

namespace TruthTables

variable {row : Row} {column column' : Nat} {value : Bool} {word : String}

/-! ### Assigned values -/

namespace Row

/-- Gives a value to a column. The row is made longer if the column is past its end. -/
def assign (row : Row) (column : Nat) (value : Bool) : Row :=
  (row ++ List.replicate (column + 1 - row.length) none).set column (some value)

lemma value?_append_replicate (row : Row) (n column : Nat) :
    Row.value? (row ++ List.replicate n none) column = row.value? column := by
  rw [value?, value?, List.getElem?_append]
  split
  · rfl
  · rename_i hle
    rw [List.getElem?_replicate, List.getElem?_eq_none (Nat.le_of_not_lt hle)]
    split <;> rfl

lemma value?_assign (row : Row) (column : Nat) (value : Bool) (column' : Nat) :
    (row.assign column value).value? column' =
      if column = column' then some value else row.value? column' := by
  have hlt : column < (row ++ List.replicate (column + 1 - row.length) (none : Option Bool)).length
      := by
    rw [List.length_append, List.length_replicate]
    omega
  rw [assign, value?_set, value?_append_replicate]
  simp only [hlt, and_true]

end Row

/-! ### Replaced words -/

/-- Replaces one word by tokens in parentheses. -/
def replacing (word : String) (ts : List Token) (name : String) : List Token :=
  if name = word then .openParen :: ts ++ [.closeParen] else [.name name]

lemma isOperand_replacing (word : String) {ts : List Token} (hts : Balanced ts) (name : String) :
    IsOperand (replacing word ts name) := by
  rw [replacing]
  split
  · exact Or.inr ⟨ts, hts, rfl⟩
  · exact Or.inl ⟨name, rfl⟩

lemma mem_replacing {ts : List Token} {name : String} {t : Token}
    (h : t ∈ replacing word ts name) :
    t = .openParen ∨ t = .closeParen ∨ t = .name name ∨ t ∈ ts := by
  rw [replacing] at h
  split at h
  · rcases List.mem_cons.1 h with h | h
    · exact Or.inl h
    · rcases List.mem_append.1 h with h | h
      · exact Or.inr (Or.inr (Or.inr h))
      · exact Or.inr (Or.inl (List.mem_singleton.1 h))
  · exact Or.inr (Or.inr (Or.inl (List.mem_singleton.1 h)))

lemma result_evaluate_name_congr {look look' : List Token → Option Bool}
    (h : look' [.name word] = look [.name word]) :
    (evaluate look' [.name word]).result = (evaluate look [.name word]).result := by
  cases hlook : look [.name word] with
  | some value => rw [result_evaluate_of_look hlook, result_evaluate_of_look (h.trans hlook)]
  | none => rw [result_evaluate_of_faulty hlook rfl, result_evaluate_of_faulty (h.trans hlook) rfl]

namespace Formula

variable {f g : Formula}

/-- Tokens that make up a formula and can be read from their texts are those of a formula. -/
lemma exists_of_tokens {ts : List Token} (hne : ts ≠ []) (hts : Balanced ts)
    (htexts : ∀ t ∈ ts, tokenize t.text = [t]) : ∃ f : Formula, f.tokens = ts := by
  have htokens := tokenize_normalize htexts
  exact ⟨⟨normalize ts, ts, htokens.symm, hne, hts⟩, rfl⟩

lemma tokenize_text (f : Formula) {t : Token} (h : t ∈ f.tokens) : tokenize t.text = [t] :=
  TruthTables.tokenize_text (f.tokens_eq ▸ h)

/-- There is a formula in which the word is replaced by another formula. -/
lemma exists_replacing (word : String) (f g : Formula) :
    ∃ h : Formula, h.tokens = substitute (replacing word g.tokens) f.tokens := by
  have hσ := isOperand_replacing word g.balanced
  refine exists_of_tokens ?_ ?_ ?_
  · exact mt (substitute_eq_nil_iff hσ).1 f.ne_nil
  · exact (balanced_substitute_iff hσ).2 f.balanced
  · intro t ht
    obtain ⟨u, hu, ht⟩ := List.mem_flatMap.1 ht
    cases u with
    | name name =>
      rcases mem_replacing ht with rfl | rfl | rfl | ht
      · exact tokenize_of_isParen (c := '(') rfl
      · exact tokenize_of_isParen (c := ')') rfl
      · exact f.tokenize_text hu
      · exact g.tokenize_text ht
    | connective | openParen | closeParen =>
      rw [List.mem_singleton.1 ht]
      exact f.tokenize_text hu

end Formula

namespace Header

variable {header : Header} {ts : List Token} {g : Formula}

lemma lookup_assign_of_position? (h : header.position? ts = some column) :
    header.lookup (row.assign column value) ts = some value := by
  rw [lookup, h, Option.bind_some, Row.value?_assign, if_pos rfl]

lemma lookup_assign_of_ne {us : List Token} (h : header.position? us = some column)
    (hne : ts ≠ us) : header.lookup (row.assign column value) ts = header.lookup row ts := by
  rw [lookup, lookup]
  cases hts : header.position? ts with
  | none => rfl
  | some column' =>
    have hcolumn : column ≠ column' := by
      rintro rfl
      obtain ⟨e, he, rfl⟩ := position?_eq_some_iff.1 h
      obtain ⟨e', he', rfl⟩ := position?_eq_some_iff.1 hts
      exact hne (congrArg Formula.tokens (Option.some.inj (he'.symm.trans he)))
    rw [Option.bind_some, Option.bind_some, Row.value?_assign, if_neg hcolumn]

lemma lookup_eq_none_of_ne_name (hnames : ∀ e ∈ header.entries, IsName e.tokens)
    (hts : ∀ word, ts ≠ [.name word]) : header.lookup row ts = none := by
  rw [Option.eq_none_iff_forall_ne_some]
  intro value h
  obtain ⟨word, hword, -⟩ := (isSome_lookup_iff.1 (Option.isSome_of_eq_some h)).isName hnames
  exact hts word hword

/-- What is in parentheses has the value that it has without them. -/
lemma result_evaluate_replacing (hnames : ∀ e ∈ header.entries, IsName e.tokens)
    (hcolumn : header.position? [.name word] = some column)
    (hg : (TruthTables.evaluate (header.lookup row) g.tokens).result = .ok value)
    (name : String) :
    (TruthTables.evaluate (header.lookup row) (replacing word g.tokens name)).result =
      (TruthTables.evaluate (header.lookup (row.assign column value)) [.name name]).result := by
  rw [replacing]
  split
  · -- the name that is replaced
    rename_i hname
    have hnone : header.lookup row (.openParen :: g.tokens ++ [.closeParen]) = none :=
      lookup_eq_none_of_ne_name hnames (by simp)
    rw [hname, evaluate_parenthesize g.balanced hnone, hg,
      result_evaluate_of_look (lookup_assign_of_position? hcolumn)]
  · -- any other name
    rename_i hname
    refine result_evaluate_name_congr (lookup_assign_of_ne hcolumn ?_).symm
    simpa using hname

/-- Let all columns be single words, and let `g` have a value under a row. A formula in which `g` is
put in parentheses in place of a column has a value exactly if it has one when the column gets the
value of `g`, and then the same one. -/
theorem evaluate_replacing (header : Header) (hnames : ∀ e ∈ header.entries, IsName e.tokens)
    (row : Row) (column : Nat) (word : String)
    (hcolumn : header.position? [.name word] = some column) (f g : Formula) (value : Bool)
    (hg : (header.evaluate row g).result = .ok value) :
    (∃ h : Formula, h.tokens = substitute (replacing word g.tokens) f.tokens) ∧
    ∀ h : Formula, h.tokens = substitute (replacing word g.tokens) f.tokens →
      ∀ value', (header.evaluate row h).result = .ok value' ↔
        (header.evaluate (row.assign column value) f).result = .ok value' := by
  refine ⟨f.exists_replacing word g, fun h hh value' => ?_⟩
  have hσ := isOperand_replacing word g.balanced
  rw [result_evaluate, mapError_eq_ok_iff] at hg
  -- the two runs may fail in different places, so their failures are not told apart
  have hsame : (TruthTables.evaluate (header.lookup row) h.tokens).result.mapError (fun _ => ()) =
      (TruthTables.evaluate (header.lookup (row.assign column value)) f.tokens).result.mapError
        fun _ => () := by
    rw [hh]
    refine result_evaluate_substitute hσ ?_ ?_ (fun _ => rfl) f.balanced
    · intro ts hts
      rw [lookup_eq_none_of_ne_name hnames hts,
        lookup_eq_none_of_ne_name hnames (substitute_ne_name hσ hts)]
    · intro name
      rw [result_evaluate_replacing hnames hcolumn hg]
  rw [result_evaluate, result_evaluate, mapError_eq_ok_iff, mapError_eq_ok_iff,
    ← mapError_eq_ok_iff (f := fun _ => ()), hsame, mapError_eq_ok_iff]

/-- Two variables, of which `compositionRow` gives a value to the first. -/
def compositionHeader : Header :=
  ((ofTexts ["p", "q"]).toOption).getD empty

def compositionRow : Row :=
  [some true, none]

def outerFormula : Formula :=
  ⟨"! q & p", _, rfl, by decide +kernel, by decide +kernel⟩

/-- Without the parentheses this would not stay together in place of `q`. -/
def innerFormula : Formula :=
  ⟨"p => ! p", _, rfl, by decide +kernel, by decide +kernel⟩

def composedFormula : Formula :=
  ⟨"!(p -> not p) && p", _, rfl, by decide +kernel, by decide +kernel⟩

theorem composedFormula_has_value :
    (∀ e ∈ compositionHeader.entries, IsName e.tokens) ∧
      compositionHeader.position? [.name "q"] = some 1 ∧
      (compositionHeader.evaluate compositionRow innerFormula).result = .ok false ∧
      composedFormula.tokens =
        substitute (replacing "q" innerFormula.tokens) outerFormula.tokens ∧
      (compositionHeader.evaluate compositionRow composedFormula).result = .ok true := by
  have hnames : ∀ e ∈ compositionHeader.entries, IsName e.tokens := by decide +kernel
  have hcolumn : compositionHeader.position? [.name "q"] = some 1 := by decide +kernel
  have hinner : (compositionHeader.evaluate compositionRow innerFormula).result = .ok false := by
    decide +kernel
  have htokens : composedFormula.tokens =
      substitute (replacing "q" innerFormula.tokens) outerFormula.tokens := by decide +kernel
  have hvalue := (evaluate_replacing compositionHeader hnames compositionRow 1 "q" hcolumn
    outerFormula innerFormula false hinner).2 composedFormula htokens true
  exact ⟨hnames, hcolumn, hinner, htokens, hvalue.2 (by decide +kernel)⟩

end Header

end TruthTables
