import TruthTables.Token

/-!
# Nesting of parentheses

A list of tokens is read from left to right with a counter of the parentheses that are open.
-/

namespace TruthTables

/-- The number of open parentheses after a token. A closing parenthesis where none is open leaves
the number at zero. -/
def Token.depthAfter (depth : Nat) : Token → Nat
  | openParen => depth + 1
  | closeParen => depth - 1
  | _ => depth

/-- The number of parentheses that are open after `ts`, if `depth` are open before it and each
closing parenthesis finds one to close. -/
def openAfter? (depth : Nat) : List Token → Option Nat
  | [] => some depth
  | t :: ts =>
    if t = .closeParen ∧ depth = 0 then none else openAfter? (t.depthAfter depth) ts

/-- Every parenthesis has its partner. -/
def Balanced (ts : List Token) : Prop :=
  openAfter? 0 ts = some 0

instance (ts : List Token) : Decidable (Balanced ts) :=
  inferInstanceAs (Decidable (_ = _))

/-- Whether `ts` never comes down to depth zero when `depth` parentheses are open before it. -/
def staysOpen (depth : Nat) : List Token → Bool
  | [] => true
  | t :: ts => (t.depthAfter depth != 0) && staysOpen (t.depthAfter depth) ts

/-- What stands between a first opening and a last closing parenthesis, if they are partners. -/
def enclosed? : List Token → Option (List Token)
  | .openParen :: ts =>
    match ts.getLast? with
    | some .closeParen => if staysOpen 1 ts.dropLast then some ts.dropLast else none
    | _ => none
  | _ => none

theorem length_lt_of_enclosed? {ts inner : List Token} (h : enclosed? ts = some inner) :
    inner.length < ts.length := by
  unfold enclosed? at h
  split at h
  · split at h
    · split at h
      · simp only [Option.some.injEq] at h
        subst h
        simp only [List.length_dropLast, List.length_cons]
        omega
      · simp at h
    · simp at h
  · simp at h

/-- What stands before and after the first `op` outside of all parentheses, if `depth` are open
before `ts`. -/
def splitAt? (op : Connective) (depth : Nat) : List Token → Option (List Token × List Token)
  | [] => none
  | t :: ts =>
    if t = .connective op ∧ depth = 0 then some ([], ts)
    else (splitAt? op (t.depthAfter depth) ts).map fun parts => (t :: parts.1, parts.2)

/-- The two parts and the connective between them are the whole list. -/
theorem eq_append_of_splitAt? {op : Connective} {depth : Nat} {ts left right : List Token}
    (h : splitAt? op depth ts = some (left, right)) :
    ts = left ++ .connective op :: right := by
  induction ts generalizing depth left with
  | nil => simp [splitAt?] at h
  | cons t ts ih =>
    unfold splitAt? at h
    split at h
    · rename_i ht
      simp only [Option.some.injEq, Prod.mk.injEq] at h
      rw [← h.1, ← h.2, ht.1, List.nil_append]
    · obtain ⟨parts, hparts, heq⟩ := Option.map_eq_some_iff.1 h
      obtain ⟨rfl, rfl⟩ := Prod.mk.inj heq
      rw [ih hparts, List.cons_append]

end TruthTables
