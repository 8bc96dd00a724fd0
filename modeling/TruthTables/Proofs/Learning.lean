import TruthTables.Proofs.Fill

/-!
# Columns that get values

A row is extended when further columns get values. What evaluation found out before stays, although
such a column is now looked up wherever its tokens occur, provided that no column gets the opposite
of what its own formula says already. Main statement: that proviso is all that is needed, and it
cannot be dropped.
-/

namespace TruthTables

variable {look look' : List Token → Option Bool} {ts left : List Token} {op : Connective}
  {value : Bool} {l l' r r' : Except Fault Bool}

/-! ### Look-ups that know more -/

/-- What has a value under `look` is looked up as this value under `look'`, or under neither. -/
def Confirms (look look' : List Token → Option Bool) : Prop :=
  ∀ ts value, (evaluate look ts).result = .ok value →
    look' ts = some value ∨ look ts = none ∧ look' ts = none

/-- A joined list has its value from the values of both sides. -/
lemma joinResults_eq_ok_of_eq_ok (hl : ∀ a, l = .ok a → l' = .ok a)
    (hr : ∀ b, r = .ok b → r' = .ok b) (h : joinResults op left l r = .ok value) :
    joinResults op left l' r' = .ok value := by
  cases hop : op.isUnary with
  | true =>
    obtain rfl := Connective.isUnary_iff.1 hop
    obtain ⟨hleft, b, hb, hvalue⟩ := joinResults_not_eq_ok_iff.1 h
    exact joinResults_not_eq_ok_iff.2 ⟨hleft, b, hr b hb, hvalue⟩
  | false =>
    obtain ⟨a, b, ha, hb, hvalue⟩ := (joinResults_eq_ok_iff hop).1 h
    exact (joinResults_eq_ok_iff hop).2 ⟨a, b, hl a ha, hr b hb, hvalue⟩

namespace Confirms

/-- What is looked up has the value that it had. -/
lemma result_eq_ok_of_not_known (h : Confirms look look')
    (hvalue : (evaluate look ts).result = .ok value)
    (hnone : look ts = none → look' ts = none → (evaluate look' ts).result = .ok value) :
    (evaluate look' ts).result = .ok value := by
  rcases h ts value hvalue with hlook' | ⟨hlook, hlook'⟩
  · exact result_evaluate_of_look hlook'
  · exact hnone hlook hlook'

/-- Values stay when more is looked up. -/
theorem result_eq_ok (h : Confirms look look') (hvalue : (evaluate look ts).result = .ok value) :
    (evaluate look' ts).result = .ok value := by
  induction ts using Shape.induction generalizing value with
  | faulty ts fault hs =>
    refine h.result_eq_ok_of_not_known hvalue fun hlook _ => ?_
    rw [result_evaluate_of_faulty hlook hs] at hvalue
    cases hvalue
  | enclosed ts inner hs ih =>
    refine h.result_eq_ok_of_not_known hvalue fun hlook hlook' => ?_
    rw [result_evaluate_of_enclosed hlook hs] at hvalue
    rw [result_evaluate_of_enclosed hlook' hs]
    exact ih hvalue
  | joined ts op left right hs ihl ihr =>
    refine h.result_eq_ok_of_not_known hvalue fun hlook hlook' => ?_
    rw [result_evaluate_of_joined hlook hs] at hvalue
    rw [result_evaluate_of_joined hlook' hs]
    exact joinResults_eq_ok_of_eq_ok (fun a => ihl) (fun b => ihr) hvalue

end Confirms

/-! ### Rows that are extended -/

/-- The columns that have values in `row` have the same ones in `row'`. -/
def Row.IsExtendedBy (row row' : Row) : Prop :=
  ∀ column value, row.value? column = some value → row'.value? column = some value

namespace Header

variable {header : Header} {row row' : Row}

/-- No further column has the opposite of what its formula says: under `row` the formula fails, or
it has the value that `row'` gives to the column. -/
def Agrees (header : Header) (row row' : Row) : Prop :=
  ∀ column f value, header.entries[column]? = some f → row.value? column = none →
    row'.value? column = some value →
      (∃ e, (header.evaluate row f).result = .error e) ∨ (header.evaluate row f).result = .ok value

lemma Agrees.confirms (hagrees : header.Agrees row row') (h : row.IsExtendedBy row') :
    Confirms (header.lookup row) (header.lookup row') := by
  intro ts value hvalue
  cases hpos : header.position? ts with
  | none =>
    have hnone : ∀ row : Row, header.lookup row ts = none := by
      intro row
      rw [lookup, hpos, Option.bind_none]
    exact Or.inr ⟨hnone row, hnone row'⟩
  | some column =>
    obtain ⟨f, hf, rfl⟩ := position?_eq_some_iff.1 hpos
    rw [lookup_of_getElem? hf, lookup_of_getElem? hf]
    have hresult : (header.evaluate row f).result = .ok value := by
      rw [result_evaluate, hvalue, mapError_ok]
    -- a column that is new in `row'` had either no value before or this one
    cases hold : row.value? column with
    | some old =>
      rw [result_evaluate_of_value? hf hold] at hresult
      rw [← Except.ok.inj hresult]
      exact Or.inl (h column old hold)
    | none =>
      cases hnew : row'.value? column with
      | none => exact Or.inr ⟨rfl, rfl⟩
      | some new =>
        rcases hagrees column f new hf hold hnew with ⟨e, he⟩ | hnew'
        · rw [he] at hresult
          cases hresult
        · rw [← Except.ok.inj (hnew'.symm.trans hresult)]
          exact Or.inl rfl

/-- Let a row be extended. Every formula that had a value keeps it exactly if no further column gets
the opposite of the value that its own formula had. -/
theorem agrees_iff_keeps_values (header : Header) (row row' : Row) (h : row.IsExtendedBy row') :
    header.Agrees row row' ↔
      ∀ (f : Formula) (value : Bool), (header.evaluate row f).result = .ok value →
        (header.evaluate row' f).result = .ok value := by
  constructor
  · -- what is looked up in the one row is confirmed by the other
    intro hagrees f value hvalue
    rw [result_evaluate, mapError_eq_ok_iff] at hvalue ⊢
    exact (hagrees.confirms h).result_eq_ok hvalue
  · -- the formulas of the columns are formulas as well
    intro hkeeps column f value hf _ hnew
    cases hold : (header.evaluate row f).result with
    | error e => exact Or.inl ⟨e, rfl⟩
    | ok old =>
      have hresult := hkeeps f old hold
      rw [result_evaluate_of_value? hf hnew] at hresult
      rw [Except.ok.inj hresult]
      exact Or.inr rfl

/-- A variable, the same in parentheses, and two formulas. -/
def learningHeader : Header :=
  ((ofTexts ["p", "(p)", "! p", "p | q"]).toOption).getD empty

/-- The last formula has a name that is no column, so nothing is known of its value. -/
def learningRow : Row :=
  [some true]

def learnedRow : Row :=
  [some true, some true, some false, some false]

/-- Two columns that get values occur in it, each within parentheses. -/
def learningFormula : Formula :=
  ⟨"! (! p) & (p)", _, rfl, by decide +kernel, by decide +kernel⟩

theorem learningFormula_keeps_value :
    learningRow.IsExtendedBy learnedRow ∧ learningHeader.Agrees learningRow learnedRow ∧
      (learningHeader.evaluate learningRow learningFormula).result = .ok true ∧
      (learningHeader.evaluate learnedRow learningFormula).result = .ok true := by
  have hextended : learningRow.IsExtendedBy learnedRow := by
    intro column value hvalue
    match column with
    | 0 => exact hvalue
    | column + 1 => cases hvalue
  have hresults :
      learningHeader.entries.map (fun f => (learningHeader.evaluate learningRow f).result) =
        [.ok true, .ok true, .ok false, .error (.unresolvedReference "p | q" "q")] := by
    decide +kernel
  have hagrees : learningHeader.Agrees learningRow learnedRow := by
    intro column f value hf hold hnew
    have hresult := congrArg (fun results => results[column]?) hresults
    rw [List.getElem?_map, hf, Option.map_some] at hresult
    match column with
    | 0 => cases hold
    | 1 | 2 =>
      cases hnew
      exact Or.inr (Option.some.inj hresult)
    | 3 => exact Or.inl ⟨_, Option.some.inj hresult⟩
    | column + 4 => cases hnew
  have hvalue : (learningHeader.evaluate learningRow learningFormula).result = .ok true := by
    decide +kernel
  have hkeeps := (agrees_iff_keeps_values learningHeader learningRow learnedRow hextended).1 hagrees
  exact ⟨hextended, hagrees, hvalue, hkeeps learningFormula true hvalue⟩

end Header

end TruthTables
