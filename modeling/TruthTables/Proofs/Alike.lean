import TruthTables.Proofs.Table

/-!
# Computations that differ in values alone

Two logged computations are alike if they log the same and either fail in the same way or both have
results. Evaluation under two look-ups that know the same lists of tokens is alike, whatever the
values are: nothing is skipped because of a value, and no failure depends on one. So is the work on
two rows in which the same columns have values.
-/

namespace TruthTables

variable {ω ω' ε ε' α β γ δ : Type}

/-- Both results are there and related, or they are the same failure. -/
inductive Related (R : α → β → Prop) : Except ε α → Except ε β → Prop where
  | ok {a : α} {b : β} (h : R a b) : Related R (.ok a) (.ok b)
  | error (e : ε) : Related R (.error e) (.error e)

namespace Related

variable {R : α → β → Prop} {x : Except ε α} {y : Except ε β}

lemma both_ok_or_both_error (h : Related R x y) :
    (∃ a b, x = .ok a ∧ y = .ok b) ∨ ∃ e, x = .error e ∧ y = .error e := by
  cases h <;> simp

lemma exists_ok_iff (h : Related R x y) : (∃ a, x = .ok a) ↔ ∃ b, y = .ok b := by
  cases h <;> simp

lemma eq_error_iff (h : Related R x y) (e : ε) : x = .error e ↔ y = .error e := by
  cases h <;> simp

lemma mapError (h : Related R x y) (f : ε → ε') : Related R (x.mapError f) (y.mapError f) := by
  cases h with
  | ok h => exact .ok h
  | error e => exact .error (f e)

end Related

namespace Logged

/-- The logs are the same, and so are the results as far as `R` tells. -/
structure Alike (R : α → β → Prop) (x : Logged ω ε α) (y : Logged ω ε β) : Prop where
  log_eq : x.log = y.log
  related : Related R x.result y.result

namespace Alike

variable {R : α → β → Prop} {S : γ → δ → Prop} {x : Logged ω ε α} {y : Logged ω ε β}

lemma pure {a : α} {b : β} (h : R a b) :
    Alike R (Pure.pure a : Logged ω ε α) (Pure.pure b : Logged ω ε β) :=
  ⟨rfl, .ok h⟩

lemma fail (e : ε) : Alike R (Logged.fail e : Logged ω ε α) (Logged.fail e : Logged ω ε β) :=
  ⟨rfl, .error e⟩

lemma emit (events : List ω) :
    Alike (· = ·) (Logged.emit events : Logged ω ε Unit) (Logged.emit events) :=
  ⟨rfl, .ok rfl⟩

lemma bind {f : α → Logged ω ε γ} {g : β → Logged ω ε δ} (h : Alike R x y)
    (hfg : ∀ a b, R a b → Alike S (f a) (g b)) : Alike S (x >>= f) (y >>= g) := by
  obtain ⟨log, result⟩ := x
  obtain ⟨log', result'⟩ := y
  obtain ⟨hlog, hrelated⟩ := h
  obtain rfl : log = log' := hlog
  cases hrelated with
  | @ok a b hab =>
    have hnext := hfg a b hab
    refine ⟨?_, ?_⟩
    · rw [log_bind_of_ok rfl, log_bind_of_ok rfl, hnext.log_eq]
    · rw [result_bind, result_bind]
      exact hnext.related
  | error e => exact ⟨rfl, .error e⟩

lemma mapFailure (h : Alike R x y) (f : ε → ε') : Alike R (x.mapFailure f) (y.mapFailure f) :=
  ⟨h.log_eq, h.related.mapError f⟩

lemma mapEvents (h : Alike R x y) (f : ω → ω') : Alike R (x.mapEvents f) (y.mapEvents f) :=
  ⟨congrArg (List.map f) h.log_eq, h.related⟩

end Alike

end Logged

open Logged (Alike)

/-! ### Evaluation -/

section

variable {look look' : List Token → Option Bool} {ts : List Token}

/-- What both look-ups know is alike in any case. -/
lemma evaluate_alike_of_not_known (h : (look ts).isSome = (look' ts).isSome)
    (hnone : look ts = none → look' ts = none →
      Alike (fun _ _ => True) (evaluate look ts) (evaluate look' ts)) :
    Alike (fun _ _ => True) (evaluate look ts) (evaluate look' ts) := by
  cases hlook : look ts with
  | none => exact hnone hlook (by simpa [hlook] using h)
  | some value =>
    obtain ⟨value', hlook'⟩ : ∃ value', look' ts = some value' := by
      rw [← Option.isSome_iff_exists, ← h, hlook, Option.isSome_some]
    rw [evaluate_of_look hlook, evaluate_of_look hlook']
    exact .pure trivial

/-- How evaluation goes depends on what is known, but not on the values. -/
theorem evaluate_alike (h : ∀ ts, (look ts).isSome = (look' ts).isSome) (ts : List Token) :
    Alike (fun _ _ => True) (evaluate look ts) (evaluate look' ts) := by
  induction ts using Shape.induction with
  | faulty ts fault hs =>
    refine evaluate_alike_of_not_known (h ts) fun hnone hnone' => ?_
    rw [evaluate_of_faulty hnone hs, evaluate_of_faulty hnone' hs]
    exact .fail fault
  | enclosed ts inner hs ih =>
    refine evaluate_alike_of_not_known (h ts) fun hnone hnone' => ?_
    rwa [evaluate_of_enclosed hnone hs, evaluate_of_enclosed hnone' hs]
  | joined ts op left right hs ihl ihr =>
    refine evaluate_alike_of_not_known (h ts) fun hnone hnone' => ?_
    cases hop : op.isUnary with
    | true =>
      rw [evaluate_of_unary hnone hs hop, evaluate_of_unary hnone' hs hop]
      refine (Alike.emit _).bind fun _ _ _ => ?_
      by_cases hleft : left = []
      · rw [if_neg (not_not.2 hleft), if_neg (not_not.2 hleft)]
        exact ihr.bind fun _ _ _ => .pure trivial
      · rw [if_pos hleft, if_pos hleft]
        exact .fail _
    | false =>
      rw [evaluate_of_binary hnone hs hop, evaluate_of_binary hnone' hs hop]
      refine (Alike.emit _).bind fun _ _ _ => ?_
      exact ihl.bind fun _ _ _ => ihr.bind fun _ _ _ => .pure trivial

end

/-! ### Rows -/

/-- The same columns have values. -/
def Row.AssignsSame (row row' : Row) : Prop :=
  ∀ column, (row.value? column).isSome = (row'.value? column).isSome

namespace Header

variable {header header' : Header} {row row' : Row} {f : Formula} {number number' : Nat}

lemma isSome_lookup_congr (h : row.AssignsSame row') (ts : List Token) :
    (header.lookup row ts).isSome = (header.lookup row' ts).isSome := by
  rw [lookup, lookup]
  cases header.position? ts with
  | none => rfl
  | some column => exact h column

lemma evaluate_alike_of_lookup
    (h : ∀ ts, (header.lookup row ts).isSome = (header'.lookup row' ts).isSome) (f : Formula) :
    Alike (fun _ _ => True) (header.evaluate row f) (header'.evaluate row' f) :=
  (evaluate_alike h f.tokens).mapFailure _

lemma evaluate_alike (h : row.AssignsSame row') (f : Formula) :
    Alike (fun _ _ => True) (header.evaluate row f) (header.evaluate row' f) :=
  evaluate_alike_of_lookup (isSome_lookup_congr h) f

/-- Under rows in which exactly the variables have values, the columns of two headers with the same
variables are evaluated alike. -/
lemma evaluate_alike_of_assignsVariables (h : header.AssignsVariables row)
    (h' : header'.AssignsVariables row')
    (hvariables : ∀ ts, header.IsVariable ts ↔ header'.IsVariable ts) (f : Formula) :
    Alike (fun _ _ => True) (header.evaluate row f) (header'.evaluate row' f) := by
  refine evaluate_alike_of_lookup (fun ts => ?_) f
  rw [Bool.eq_iff_iff, isSome_lookup_iff, isSome_lookup_iff, h.isAssigned_iff, h'.isAssigned_iff,
    hvariables]

/-! ### Filling columns -/

/-- Rows of one length in which the same columns have values. -/
def SamePattern (row row' : Row) : Prop :=
  row.length = row'.length ∧ row.AssignsSame row'

lemma SamePattern.set (h : SamePattern row row') (column : Nat) (value value' : Bool) :
    SamePattern (row.set column (some value)) (row'.set column (some value')) := by
  obtain ⟨hlength, hsame⟩ := h
  refine ⟨by rw [List.length_set, List.length_set, hlength], fun column' => ?_⟩
  rw [Row.value?_set, Row.value?_set, hlength]
  split
  · rfl
  · exact hsame column'

lemma fill_alike (h : SamePattern row row') (column : Nat) (f : Formula) :
    Alike SamePattern (header.fill row column f) (header.fill row' column f) :=
  (evaluate_alike h.2 f).bind fun value value' _ => .pure (h.set column value value')

lemma fillFrom_alike (h : SamePattern row row') (column : Nat) (entries : List Formula) :
    Alike SamePattern (header.fillFrom column entries row)
      (header.fillFrom column entries row') := by
  induction entries generalizing column row row' with
  | nil => exact .pure h
  | cons f entries ih =>
    have hsome : (row.value? column).isNone = (row'.value? column).isNone := by
      rw [← Option.not_isSome, ← Option.not_isSome, h.2 column]
    rw [fillFrom, fillFrom, hsome]
    split
    · exact (fill_alike h column f).bind fun _ _ hrow => ih hrow (column + 1)
    · exact (Alike.pure h).bind fun _ _ hrow => ih hrow (column + 1)

lemma complete_alike (h : SamePattern row row') :
    Alike (fun _ _ => True) (header.complete row) (header.complete row') :=
  ((fillFrom_alike h 0 header.entries).mapEvents Event.cut).bind fun _ _ _ => .pure trivial

/-- All rows of a table are worked out alike. -/
theorem complete_startRow_alike (header : Header) (number number' : Nat) :
    Alike (fun _ _ => True) (header.complete (startRow header.blocks number))
      (header.complete (startRow header.blocks number')) := by
  refine complete_alike ⟨by rw [length_startRow, length_startRow], fun column => ?_⟩
  rw [Row.value?, Row.value?, startRow, startRow, List.getElem?_map, List.getElem?_map]
  cases header.blocks[column]? with
  | none => rfl
  | some block => cases block <;> rfl

end Header

end TruthTables
