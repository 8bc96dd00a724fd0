import TruthTables.Proofs.Evaluation

/-!
# Operands in place of names

In a list of tokens every name can be replaced by an operand: a name again, or a list of tokens in
parentheses. Nothing around an operand sees what is inside it, so the list is taken apart at the
same parentheses and connectives as before. Main statement: evaluation goes on as before, and finds
the same values and failures, if the operands have the values and failures of the names.
-/

namespace TruthTables

/-- A name, or one pair of parentheses around the rest. -/
def IsOperand (ts : List Token) : Prop :=
  (∃ word, ts = [.name word]) ∨ Parenthesized ts

/-- The tokens that stand for a token when names stand for lists of tokens. -/
def Token.substitute (σ : String → List Token) : Token → List Token
  | name word => σ word
  | t => [t]

/-- Replaces all names. -/
def substitute (σ : String → List Token) (ts : List Token) : List Token :=
  ts.flatMap (Token.substitute σ)

/-- A defect shows the tokens that are side by side. -/
def Defect.substitute (σ : String → List Token) : Defect → Defect
  | unjoined ts => unjoined (TruthTables.substitute σ ts)
  | d => d

variable {σ : String → List Token} {depth : Nat} {op : Connective} {ts us left right : List Token}

/-! ### Operands -/

namespace IsOperand

lemma ne_nil (h : IsOperand ts) : ts ≠ [] := by
  obtain ⟨word, rfl⟩ | ⟨inner, -, rfl⟩ := h <;> simp

lemma balanced (h : IsOperand ts) : Balanced ts := by
  obtain ⟨word, rfl⟩ | ⟨inner, hinner, rfl⟩ := h
  · simp [Balanced]
  · exact hinner.parenthesize

lemma outer_eq_nil (h : IsOperand ts) : outer 0 ts = [] := by
  obtain ⟨word, rfl⟩ | ⟨inner, hinner, rfl⟩ := h
  · rfl
  · exact outer_parenthesize hinner

lemma openAfter?_eq (h : IsOperand ts) (depth : Nat) : openAfter? depth ts = some depth := by
  have hadd := openAfter?_add depth h.balanced
  rwa [Nat.zero_add] at hadd

end IsOperand

/-! ### Replaced names -/

@[simp] lemma substitute_nil : substitute σ [] = [] := rfl

@[simp] lemma substitute_append (ts us : List Token) :
    substitute σ (ts ++ us) = substitute σ ts ++ substitute σ us :=
  List.flatMap_append

@[simp] lemma substitute_openParen (ts : List Token) :
    substitute σ (.openParen :: ts) = .openParen :: substitute σ ts := rfl

@[simp] lemma substitute_closeParen (ts : List Token) :
    substitute σ (.closeParen :: ts) = .closeParen :: substitute σ ts := rfl

@[simp] lemma substitute_connective (op : Connective) (ts : List Token) :
    substitute σ (.connective op :: ts) = .connective op :: substitute σ ts := rfl

@[simp] lemma substitute_name (word : String) (ts : List Token) :
    substitute σ (.name word :: ts) = σ word ++ substitute σ ts := rfl

lemma substitute_parenthesize (ts : List Token) :
    substitute σ (.openParen :: ts ++ [.closeParen]) =
      .openParen :: substitute σ ts ++ [.closeParen] := by
  simp

section

variable (hσ : ∀ word, IsOperand (σ word))

include hσ

lemma length_le_substitute (ts : List Token) : ts.length ≤ (substitute σ ts).length := by
  induction ts with
  | nil => exact Nat.le_refl 0
  | cons t ts ih =>
    have hlength : 0 < (t.substitute σ).length := by
      cases t with
      | name word => exact List.length_pos_iff.2 (hσ word).ne_nil
      | _ => exact Nat.one_pos
    rw [substitute, List.flatMap_cons, List.length_append, List.length_cons, ← substitute]
    omega

lemma substitute_eq_nil_iff : substitute σ ts = [] ↔ ts = [] := by
  constructor
  · intro h
    have hlength := length_le_substitute hσ ts
    rw [h] at hlength
    exact List.length_eq_zero_iff.1 (Nat.le_zero.1 hlength)
  · rintro rfl
    rfl

/-- Other tokens than a single name do not become one. -/
lemma substitute_ne_name (hts : ∀ word, ts ≠ [.name word]) :
    ∀ word, substitute σ ts ≠ [.name word] := by
  intro word h
  match ts with
  | [] => simp at h
  | [.name w] => exact hts w rfl
  | [.connective op] | [.openParen] | [.closeParen] => simp at h
  | t :: u :: us =>
    have hlength := length_le_substitute hσ (t :: u :: us)
    simp [h] at hlength

/-- Operands leave as many parentheses open as names do. -/
lemma openAfter?_substitute (depth : Nat) (ts : List Token) :
    openAfter? depth (substitute σ ts) = openAfter? depth ts := by
  induction ts generalizing depth with
  | nil => rfl
  | cons t ts ih =>
    match t, depth with
    | .openParen, depth => simp [ih]
    | .closeParen, 0 => simp
    | .closeParen, depth + 1 => simp [ih]
    | .connective op, depth => simp [ih]
    | .name word, depth => simp [openAfter?_append, (hσ word).openAfter?_eq, ih]

lemma balanced_substitute_iff : Balanced (substitute σ ts) ↔ Balanced ts := by
  rw [Balanced, Balanced, openAfter?_substitute hσ]

/-- The connectives outside of all parentheses stay. -/
lemma outer_substitute (depth : Nat) (ts : List Token) :
    outer depth (substitute σ ts) = outer depth ts := by
  induction ts generalizing depth with
  | nil => rfl
  | cons t ts ih =>
    match t, depth with
    | .openParen, depth => exact ih (depth + 1)
    | .closeParen, depth => exact ih (depth - 1)
    | .connective op, depth =>
      rw [substitute_connective, outer, outer, ih]
    | .name word, depth =>
      -- an operand has no connective outside of parentheses
      have hnone : outer depth (σ word) = [] := by
        cases depth with
        | zero => exact (hσ word).outer_eq_nil
        | succ depth => exact outer_succ ((hσ word).openAfter?_eq depth)
      rw [substitute_name, outer_append ((hσ word).openAfter?_eq depth), hnone, ih]
      rfl

/-- Several tokens are in parentheses as before. A single name may have become so. -/
lemma parenthesized_substitute_iff (hts : Balanced ts) (hlen : 2 ≤ ts.length) :
    Parenthesized (substitute σ ts) ↔ Parenthesized ts := by
  constructor
  · intro h
    have hne : ts ≠ [] := List.length_pos_iff.1 (Nat.zero_lt_of_lt hlen)
    obtain ⟨first, more, rfl, hfirst, hmore, hone⟩ := hts.exists_append hne
    by_cases hnil : more = []
    · -- a single part, and this is not one token
      subst hnil
      obtain ⟨t, rfl⟩ | hparen := hone
      · simp at hlen
      · rwa [List.append_nil]
    · -- several parts stay several parts
      have hfirst' : first ≠ [] := by
        obtain ⟨t, rfl⟩ | ⟨inner, -, rfl⟩ := hone <;> simp
      rw [substitute_append] at h
      exact absurd h (not_parenthesized_append ((balanced_substitute_iff hσ).2 hfirst)
        (mt (substitute_eq_nil_iff hσ).1 hfirst') (mt (substitute_eq_nil_iff hσ).1 hnil))
  · rintro ⟨inner, hinner, rfl⟩
    exact ⟨substitute σ inner, (balanced_substitute_iff hσ).2 hinner, substitute_parenthesize inner⟩

/-! ### Shapes -/

lemma ofTokens_substitute_of_enclosed (hts : Balanced ts) (h : Shape.ofTokens ts = .enclosed us) :
    Shape.ofTokens (substitute σ ts) = .enclosed (substitute σ us) := by
  obtain ⟨rfl, hus⟩ := (Shape.ofTokens_eq_enclosed_iff hts).1 h
  refine (Shape.ofTokens_eq_enclosed_iff ((balanced_substitute_iff hσ).2 hts)).2 ?_
  exact ⟨substitute_parenthesize us, (balanced_substitute_iff hσ).2 hus⟩

lemma ofTokens_substitute_of_joined (hts : Balanced ts)
    (h : Shape.ofTokens ts = .joined op left right) :
    Shape.ofTokens (substitute σ ts) = .joined op (substitute σ left) (substitute σ right) := by
  obtain ⟨heq, hleft, hop, hloosest, hne⟩ := (Shape.ofTokens_eq_joined_iff hts).1 h
  refine (Shape.ofTokens_eq_joined_iff ((balanced_substitute_iff hσ).2 hts)).2 ⟨?_, ?_, ?_, ?_, ?_⟩
  · rw [heq, substitute_append, substitute_connective]
  · exact (balanced_substitute_iff hσ).2 hleft
  · rwa [outer_substitute hσ]
  · rwa [outer_substitute hσ]
  · exact hne.imp (mt (substitute_eq_nil_iff hσ).1) (mt (substitute_eq_nil_iff hσ).1)

lemma ofTokens_substitute_of_faulty {fault : Fault} (hts : Balanced ts) (hlen : 2 ≤ ts.length)
    (h : Shape.ofTokens ts = .faulty fault) :
    Shape.ofTokens (substitute σ ts) = .faulty (.defect (.unjoined (substitute σ ts))) := by
  obtain ⟨-, hparen, houter⟩ := (Shape.ofTokens_eq_faulty_iff hts hlen).1 h
  have hlen' : 2 ≤ (substitute σ ts).length := Nat.le_trans hlen (length_le_substitute hσ ts)
  refine (Shape.ofTokens_eq_faulty_iff ((balanced_substitute_iff hσ).2 hts) hlen').2 ⟨rfl, ?_, ?_⟩
  · rwa [parenthesized_substitute_iff hσ hts hlen]
  · rwa [outer_substitute hσ]

end

/-! ### Evaluation -/

/-- If the results for both sides agree as far as `φ` and `φ'` tell failures apart, so do the joined
results. -/
lemma joinResults_mapError_congr {γ : Type} {φ φ' : Fault → γ} {l l' r r' : Except Fault Bool}
    {left' : List Token} (hfault : φ' (.defect (.leftOperand op)) = φ (.defect (.leftOperand op)))
    (hleft : left' = [] ↔ left = []) (hl : l'.mapError φ' = l.mapError φ)
    (hr : r'.mapError φ' = r.mapError φ) :
    (joinResults op left' l' r').mapError φ' = (joinResults op left l r).mapError φ := by
  simp only [joinResults, ne_eq, hleft]
  split
  · split
    · simpa using hfault
    · cases r <;> cases r' <;> simp_all
  · cases l <;> cases l' <;> cases r <;> cases r' <;> simp_all

section

variable {γ : Type} {φ φ' : Fault → γ} {look look' : List Token → Option Bool}

/-- What is looked up agrees in any case. -/
lemma result_evaluate_substitute_of_not_known
    (hlook : ∀ ts, (∀ word, ts ≠ [.name word]) → look' (substitute σ ts) = look ts)
    (hname : ∀ word, (evaluate look' (σ word)).result.mapError φ' =
      (evaluate look [.name word]).result.mapError φ)
    (hnone : (∀ word, ts ≠ [.name word]) → look ts = none → look' (substitute σ ts) = none →
      (evaluate look' (substitute σ ts)).result.mapError φ' =
        (evaluate look ts).result.mapError φ) :
    (evaluate look' (substitute σ ts)).result.mapError φ' =
      (evaluate look ts).result.mapError φ := by
  by_cases hword : ∃ word, ts = [.name word]
  · -- a name, which is replaced by an operand with the same result
    obtain ⟨word, rfl⟩ := hword
    rw [substitute_name, substitute_nil, List.append_nil, hname]
  · -- other tokens, which are looked up as before
    have hts : ∀ word, ts ≠ [.name word] := fun word heq => hword ⟨word, heq⟩
    cases hvalue : look ts with
    | none => exact hnone hts hvalue (by rw [hlook ts hts, hvalue])
    | some value =>
      rw [result_evaluate_of_look hvalue, result_evaluate_of_look (by rw [hlook ts hts, hvalue])]
      rfl

/-- Let the operands evaluate as the names do that they stand for, and let nothing else be looked up
otherwise. Then evaluation agrees before and after the names are replaced, as far as `φ` and `φ'`
tell failures apart. -/
theorem result_evaluate_substitute (hσ : ∀ word, IsOperand (σ word))
    (hlook : ∀ ts, (∀ word, ts ≠ [.name word]) → look' (substitute σ ts) = look ts)
    (hname : ∀ word, (evaluate look' (σ word)).result.mapError φ' =
      (evaluate look [.name word]).result.mapError φ)
    (hdefect : ∀ d : Defect, φ' (.defect (d.substitute σ)) = φ (.defect d)) (hts : Balanced ts) :
    (evaluate look' (substitute σ ts)).result.mapError φ' =
      (evaluate look ts).result.mapError φ := by
  induction ts using Shape.induction with
  | faulty ts fault hs =>
    refine result_evaluate_substitute_of_not_known hlook hname fun hword hnone hnone' => ?_
    match ts with
    | [] =>
      rw [substitute_nil] at hnone' ⊢
      rw [result_evaluate_of_faulty hnone rfl, result_evaluate_of_faulty hnone' rfl]
      exact congrArg Except.error (hdefect .missingOperand)
    | [.connective op] =>
      rw [substitute_connective, substitute_nil] at hnone' ⊢
      rw [result_evaluate_of_faulty hnone rfl, result_evaluate_of_faulty hnone' rfl]
      exact congrArg Except.error (hdefect (.unexpected (.connective op)))
    | [.openParen] | [.closeParen] => simp [Balanced] at hts
    | [.name word] => exact absurd rfl (hword word)
    | t :: u :: us =>
      have hlen : 2 ≤ (t :: u :: us).length := by simp
      have hs' := ofTokens_substitute_of_faulty hσ hts hlen hs
      obtain ⟨rfl, -, -⟩ := (Shape.ofTokens_eq_faulty_iff hts hlen).1 hs
      rw [result_evaluate_of_faulty hnone hs, result_evaluate_of_faulty hnone' hs']
      exact congrArg Except.error (hdefect (.unjoined (t :: u :: us)))
  | enclosed ts inner hs ih =>
    refine result_evaluate_substitute_of_not_known hlook hname fun hword hnone hnone' => ?_
    have hinner := ((Shape.ofTokens_eq_enclosed_iff hts).1 hs).2
    rw [result_evaluate_of_enclosed hnone hs,
      result_evaluate_of_enclosed hnone' (ofTokens_substitute_of_enclosed hσ hts hs), ih hinner]
  | joined ts op left right hs ihl ihr =>
    refine result_evaluate_substitute_of_not_known hlook hname fun hword hnone hnone' => ?_
    obtain ⟨rfl, hleft, -⟩ := (Shape.ofTokens_eq_joined_iff hts).1 hs
    have hright : Balanced right := (hts.right_of_append hleft).of_connective_cons
    rw [result_evaluate_of_joined hnone hs,
      result_evaluate_of_joined hnone' (ofTokens_substitute_of_joined hσ hts hs)]
    exact joinResults_mapError_congr (hdefect (.leftOperand op)) (substitute_eq_nil_iff hσ)
      (ihl hleft) (ihr hright)

end

end TruthTables
