import TruthTables.Parentheses
import TruthTables.Error
import TruthTables.Event
import TruthTables.Logged

/-!
# Evaluation

A list of tokens is evaluated relative to a look-up that knows the values of some lists of tokens.
What is not looked up is taken apart: enclosing parentheses are dropped, and otherwise the list is
cut at its loosest connective, at the first place where that one stands outside of all parentheses.
So every connective takes all that follows as its right operand, and binary connectives associate
to the right.
-/

namespace TruthTables

/-- How a list of tokens is taken apart. -/
inductive Shape where
  | faulty (fault : Fault)
  | enclosed (inner : List Token)
  | joined (op : Connective) (left right : List Token)
deriving DecidableEq, Repr

/-- Why a token that is not looked up has no value of its own. -/
def Token.fault : Token → Fault
  | name word =>
    if isEscaped word then .defect (.unknownOperator word) else .unresolved word
  | t => .defect (.unexpected t)

/-- The cut at the loosest of the connectives `ops`, which come with the loosest first. -/
def loosest? (ts : List Token) : List Connective → Option (Connective × List Token × List Token)
  | [] => none
  | op :: ops =>
    match splitAt? op 0 ts with
    | some parts => some (op, parts)
    | none => loosest? ts ops

def Shape.ofTokens : List Token → Shape
  | [] => faulty (.defect .missingOperand)
  | [t] => faulty t.fault
  | ts =>
    match enclosed? ts with
    | some inner => enclosed inner
    | none =>
      match loosest? ts Connective.precedence with
      | some (op, left, right) => joined op left right
      | none => faulty (.defect (.unjoined ts))

theorem eq_append_of_loosest? {ts left right : List Token} {op : Connective}
    {ops : List Connective} (h : loosest? ts ops = some (op, left, right)) :
    ts = left ++ .connective op :: right := by
  induction ops with
  | nil => simp [loosest?] at h
  | cons o ops ih =>
    unfold loosest? at h
    split at h
    · rename_i parts hparts
      obtain ⟨rfl, rfl⟩ := Prod.mk.inj (Option.some.inj h)
      exact eq_append_of_splitAt? hparts
    · exact ih h

namespace Shape

theorem enclosed?_of_ofTokens {ts inner : List Token} (h : ofTokens ts = enclosed inner) :
    enclosed? ts = some inner := by
  unfold ofTokens at h
  split at h
  · simp at h
  · simp at h
  · split at h
    · simp_all
    · split at h <;> simp at h

theorem eq_append_of_ofTokens {ts left right : List Token} {op : Connective}
    (h : ofTokens ts = joined op left right) : ts = left ++ .connective op :: right := by
  unfold ofTokens at h
  split at h
  · simp at h
  · simp at h
  · split at h
    · simp at h
    · split at h
      · rename_i hparts
        simp only [joined.injEq] at h
        obtain ⟨rfl, rfl, rfl⟩ := h
        exact eq_append_of_loosest? hparts
      · simp at h

theorem length_lt_of_enclosed {ts inner : List Token} (h : ofTokens ts = enclosed inner) :
    inner.length < ts.length :=
  length_lt_of_enclosed? (enclosed?_of_ofTokens h)

theorem length_left_lt_of_joined {ts left right : List Token} {op : Connective}
    (h : ofTokens ts = joined op left right) : left.length < ts.length := by
  simp only [eq_append_of_ofTokens h, List.length_append, List.length_cons]
  omega

theorem length_right_lt_of_joined {ts left right : List Token} {op : Connective}
    (h : ofTokens ts = joined op left right) : right.length < ts.length := by
  simp only [eq_append_of_ofTokens h, List.length_append, List.length_cons]
  omega

end Shape

/-- The value of `ts`, where `look` knows the values of some lists of tokens. Both operands of a
binary connective are evaluated, the left one first. -/
def evaluate (look : List Token → Option Bool) (ts : List Token) : Logged Cut Fault Bool :=
  match look ts with
  | some value => pure value
  | none =>
    match _h : Shape.ofTokens ts with
    | .faulty fault => .fail fault
    | .enclosed inner => evaluate look inner
    | .joined op left right => do
      Logged.emit [⟨ts, op⟩]
      if op.isUnary then
        if left ≠ [] then
          .fail (.defect (.leftOperand op))
        else
          let r ← evaluate look right
          pure (op.apply false r)
      else
        let l ← evaluate look left
        let r ← evaluate look right
        pure (op.apply l r)
termination_by ts.length
decreasing_by
  · exact Shape.length_lt_of_enclosed _h
  · exact Shape.length_right_lt_of_joined _h
  · exact Shape.length_left_lt_of_joined _h
  · exact Shape.length_right_lt_of_joined _h

section

variable {look : List Token → Option Bool} {ts : List Token}

theorem evaluate_of_look {value : Bool} (h : look ts = some value) :
    evaluate look ts = pure value := by
  rw [evaluate, h]

theorem evaluate_of_faulty {fault : Fault} (h : look ts = none)
    (hs : Shape.ofTokens ts = .faulty fault) : evaluate look ts = .fail fault := by
  rw [evaluate, h]
  dsimp only
  split <;> simp_all

theorem evaluate_of_enclosed {inner : List Token} (h : look ts = none)
    (hs : Shape.ofTokens ts = .enclosed inner) : evaluate look ts = evaluate look inner := by
  rw [evaluate, h]
  dsimp only
  split <;> simp_all

theorem evaluate_of_unary {op : Connective} {left right : List Token} (h : look ts = none)
    (hs : Shape.ofTokens ts = .joined op left right) (hop : op.isUnary = true) :
    evaluate look ts =
      (Logged.emit [⟨ts, op⟩] >>= fun _ =>
        if left ≠ [] then .fail (.defect (.leftOperand op))
        else evaluate look right >>= fun r => pure (op.apply false r)) := by
  rw [evaluate, h]
  dsimp only
  split <;> simp_all

theorem evaluate_of_binary {op : Connective} {left right : List Token} (h : look ts = none)
    (hs : Shape.ofTokens ts = .joined op left right) (hop : op.isUnary = false) :
    evaluate look ts =
      (Logged.emit [⟨ts, op⟩] >>= fun _ =>
        evaluate look left >>= fun l => evaluate look right >>= fun r => pure (op.apply l r)) := by
  rw [evaluate, h]
  dsimp only
  split <;> simp_all

end

end TruthTables
