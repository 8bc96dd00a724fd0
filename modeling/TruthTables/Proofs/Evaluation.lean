import TruthTables.Proofs.Logged
import TruthTables.Proofs.Shape

/-!
# Results of evaluation

What evaluation finds, one equation for each shape of a list of tokens. Main statement: a look-up
that stores results of evaluation beside what it knew before leaves every result as it was, errors
included.
-/

namespace TruthTables

variable {look look' : List Token → Option Bool} {ts left right inner : List Token}
  {op : Connective} {value : Bool} {fault : Fault}

/-! ### One equation for each shape -/

/-- The result for a list that is cut at `op`, given what stands before the cut and the results for
both sides. -/
def joinResults (op : Connective) (left : List Token) (l r : Except Fault Bool) :
    Except Fault Bool :=
  if op.isUnary then
    if left ≠ [] then .error (.defect (.leftOperand op)) else r.map (op.apply false)
  else l >>= fun a => r.map (op.apply a)

lemma result_evaluate_of_look (h : look ts = some value) :
    (evaluate look ts).result = .ok value := by
  rw [evaluate_of_look h, Logged.result_pure]

lemma result_evaluate_of_faulty (h : look ts = none) (hs : Shape.ofTokens ts = .faulty fault) :
    (evaluate look ts).result = .error fault := by
  rw [evaluate_of_faulty h hs, Logged.result_fail]

lemma result_evaluate_of_enclosed (h : look ts = none)
    (hs : Shape.ofTokens ts = .enclosed inner) :
    (evaluate look ts).result = (evaluate look inner).result := by
  rw [evaluate_of_enclosed h hs]

/-- Parentheses make no difference, unless the list is looked up together with them. -/
lemma evaluate_parenthesize (hts : Balanced ts)
    (h : look (.openParen :: ts ++ [.closeParen]) = none) :
    evaluate look (.openParen :: ts ++ [.closeParen]) = evaluate look ts :=
  evaluate_of_enclosed h ((Shape.ofTokens_eq_enclosed_iff hts.parenthesize).2 ⟨rfl, hts⟩)

lemma result_evaluate_of_joined (h : look ts = none)
    (hs : Shape.ofTokens ts = .joined op left right) :
    (evaluate look ts).result =
      joinResults op left (evaluate look left).result (evaluate look right).result := by
  by_cases hop : op.isUnary
  · -- a negation, with nothing on its left
    rw [evaluate_of_unary h hs hop, joinResults, if_pos hop, Logged.result_bind,
      Logged.result_emit, ok_bind]
    split
    · rw [Logged.result_fail]
    · rw [Logged.result_bind]
      cases (evaluate look right).result <;> simp
  · -- the left operand is evaluated first, and its failure is the one that counts
    rw [evaluate_of_binary h hs (by simpa using hop), joinResults, if_neg hop, Logged.result_bind,
      Logged.result_emit, ok_bind, Logged.result_bind]
    cases (evaluate look left).result with
    | error fault => simp
    | ok l =>
      rw [ok_bind, ok_bind, Logged.result_bind]
      cases (evaluate look right).result <;> simp

lemma joinResults_not_eq_ok_iff {l r : Except Fault Bool} :
    joinResults .not left l r = .ok value ↔ left = [] ∧ ∃ b, r = .ok b ∧ (!b) = value := by
  by_cases hleft : left = []
  · cases r <;> simp [joinResults, Connective.isUnary, Connective.apply, hleft]
  · simp [joinResults, Connective.isUnary, hleft]

lemma joinResults_eq_ok_iff {l r : Except Fault Bool} (hop : op.isUnary = false) :
    joinResults op left l r = .ok value ↔
      ∃ a b, l = .ok a ∧ r = .ok b ∧ op.apply a b = value := by
  cases l <;> cases r <;> simp [joinResults, hop]

/-! ### Stored results -/

/-- `look'` knows what `look` knows, and otherwise only values that evaluation finds with `look`. -/
def Stores (look look' : List Token → Option Bool) : Prop :=
  ∀ ts, look' ts = look ts ∨
    ∃ value, look' ts = some value ∧ (evaluate look ts).result = .ok value

namespace Stores

/-- What is looked up agrees in any case. -/
lemma result_eq_of_not_known (h : Stores look look')
    (hnone : look ts = none → look' ts = none →
      (evaluate look' ts).result = (evaluate look ts).result) :
    (evaluate look' ts).result = (evaluate look ts).result := by
  rcases h ts with heq | ⟨value, hvalue, hresult⟩
  · -- the tokens are looked up as before
    cases hlook : look ts with
    | some value =>
      rw [hlook] at heq
      rw [result_evaluate_of_look heq, result_evaluate_of_look hlook]
    | none => exact hnone hlook (heq.trans hlook)
  · -- the value that was stored is the one that the tokens have
    rw [result_evaluate_of_look hvalue, hresult]

/-- Stored results change no result. -/
theorem result_eq (h : Stores look look') (ts : List Token) :
    (evaluate look' ts).result = (evaluate look ts).result := by
  induction ts using Shape.induction with
  | faulty ts fault hs =>
    refine h.result_eq_of_not_known fun hnone hnone' => ?_
    rw [result_evaluate_of_faulty hnone hs, result_evaluate_of_faulty hnone' hs]
  | enclosed ts inner hs ih =>
    refine h.result_eq_of_not_known fun hnone hnone' => ?_
    rw [result_evaluate_of_enclosed hnone hs, result_evaluate_of_enclosed hnone' hs, ih]
  | joined ts op left right hs ihl ihr =>
    refine h.result_eq_of_not_known fun hnone hnone' => ?_
    rw [result_evaluate_of_joined hnone hs, result_evaluate_of_joined hnone' hs, ihl, ihr]

end Stores

end TruthTables
