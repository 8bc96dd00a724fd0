import Mathlib.Tactic.Ring
import TruthTables.Table

/-!
# Counting in binary

A column that is a variable has a block of two to the power of the number of variables on its right,
which fits in a word, so the cells of the variables in a row are the binary digits of the number of
that row.
-/

namespace TruthTables

variable {flags bits bits' row : List Bool} {number column count : Nat}

/-! ### Binary numbers -/

/-- The number with these binary digits, the most significant one first. -/
def binary (bits : List Bool) : Nat :=
  bits.foldl (fun n bit => 2 * n + bit.toNat) 0

lemma foldl_binary (n : Nat) (bits : List Bool) :
    bits.foldl (fun n bit => 2 * n + bit.toNat) n = n * 2 ^ bits.length + binary bits := by
  induction bits generalizing n with
  | nil => simp [binary]
  | cons bit bits ih =>
    rw [binary, List.foldl_cons, List.foldl_cons, ih, ih (2 * 0 + bit.toNat), List.length_cons]
    ring

@[simp] lemma binary_nil : binary [] = 0 := rfl

lemma binary_cons (bit : Bool) (bits : List Bool) :
    binary (bit :: bits) = bit.toNat * 2 ^ bits.length + binary bits := by
  rw [binary, List.foldl_cons, foldl_binary, Nat.mul_zero, Nat.zero_add]

lemma binary_lt (bits : List Bool) : binary bits < 2 ^ bits.length := by
  induction bits with
  | nil => simp
  | cons bit bits ih =>
    rw [binary_cons, List.length_cons, pow_succ]
    cases bit <;> simp only [Bool.toNat_false, Bool.toNat_true] <;> omega

/-- Lists of digits of one length with the same number are equal. -/
lemma binary_injective (hlength : bits.length = bits'.length) (h : binary bits = binary bits') :
    bits = bits' := by
  induction bits generalizing bits' with
  | nil => exact (List.length_eq_zero_iff.1 hlength.symm).symm
  | cons bit bits ih =>
    cases bits' with
    | nil => simp at hlength
    | cons bit' bits' =>
      have hrest : bits.length = bits'.length := by simpa using hlength
      have hlt := binary_lt bits
      have hlt' := binary_lt bits'
      rw [binary_cons, binary_cons, ← hrest] at h
      rw [← hrest] at hlt'
      -- the first digit outweighs all the others together
      have hbit : bit = bit' := by
        cases bit <;> cases bit' <;> simp at h ⊢ <;> omega
      subst hbit
      rw [ih hrest (by omega)]

/-! ### Words -/

lemma toNat_ofNat_two_pow (h : count ≤ 63) : (UInt64.ofNat (2 ^ count)).toNat = 2 ^ count := by
  rw [UInt64.toNat_ofNat']
  exact Nat.mod_eq_of_lt (Nat.pow_lt_pow_right (by omega) (by omega))

/-- The shift that counts the rows loses no bit. -/
lemma toNat_rowCount (h : count ≤ 63) : (rowCount count).toNat = 2 ^ count := by
  have hlt : 2 ^ count < 2 ^ 64 := Nat.pow_lt_pow_right (by omega) (by omega)
  rw [rowCount, UInt64.toNat_shiftLeft, UInt64.toNat_ofNat',
    Nat.mod_eq_of_lt (by omega : count < 2 ^ 64), Nat.mod_eq_of_lt (by omega : count < 64)]
  simpa [Nat.one_shiftLeft] using hlt

/-- A cell is a binary digit of the number of its row. -/
lemma cell_eq_testBit (hnumber : number < 2 ^ 64) (hcount : count ≤ 63) :
    cell (UInt64.ofNat number) (UInt64.ofNat (2 ^ count)) = number.testBit count := by
  have hword : (UInt64.ofNat number / UInt64.ofNat (2 ^ count) % 2).toNat =
      number / 2 ^ count % 2 := by
    rw [UInt64.toNat_mod, UInt64.toNat_div, toNat_ofNat_two_pow hcount, UInt64.toNat_ofNat',
      Nat.mod_eq_of_lt hnumber]
    rfl
  rw [cell, Nat.testBit_eq_decide_div_mod_eq, ← hword, Bool.eq_iff_iff, beq_iff_eq,
    decide_eq_true_eq, ← UInt64.toNat_inj]
  rfl

/-! ### Blocks -/

/-- The blocks of columns, and of one more variable on the left, by the number of variables on their
right. -/
lemma blocksOf_snd (flags : List Bool) :
    (blocksOf flags).2 = UInt64.ofNat (2 ^ flags.count true) := by
  induction flags with
  | nil => rfl
  | cons isVariable flags ih =>
    cases isVariable with
    | false => simp [blocksOf, ih]
    | true =>
      have hshift := UInt64.ofNat_shiftLeft (2 ^ flags.count true) 1 (by omega)
      rw [Nat.shiftLeft_eq, pow_one] at hshift
      rw [List.count_cons_self, pow_succ, hshift, ← ih]
      rfl

lemma getElem?_blocksOf (flags : List Bool) (column : Nat) :
    (blocksOf flags).1[column]? = flags[column]?.map fun isVariable =>
      if isVariable then some (UInt64.ofNat (2 ^ (flags.drop (column + 1)).count true))
      else none := by
  induction flags generalizing column with
  | nil => simp [blocksOf]
  | cons isVariable flags ih =>
    cases column with
    | zero =>
      cases isVariable <;> simp [blocksOf, blocksOf_snd]
    | succ column =>
      cases isVariable <;> simp [blocksOf, ih]

@[simp] lemma length_blocksOf (flags : List Bool) : (blocksOf flags).1.length = flags.length := by
  induction flags with
  | nil => rfl
  | cons isVariable flags ih => cases isVariable <;> simp [blocksOf, ih]

/-! ### Cells of the variables -/

/-- The cells of a row that belong to variables. -/
def selected (flags row : List Bool) : List Bool :=
  ((flags.zip row).filter (·.1)).map (·.2)

lemma length_selected (h : row.length = flags.length) :
    (selected flags row).length = flags.count true := by
  induction flags generalizing row with
  | nil => simp [selected]
  | cons isVariable flags ih =>
    cases row with
    | nil => simp at h
    | cons bit row =>
      have hrest : (selected flags row).length = flags.count true := ih (by simpa using h)
      cases isVariable <;> simpa [selected] using hrest

/-- Two rows whose cells for the variables are the same agree on every variable. -/
lemma getElem?_eq_of_selected_eq {row' : List Bool} (hlength : row.length = flags.length)
    (hlength' : row'.length = flags.length) (h : selected flags row = selected flags row')
    (hcolumn : flags[column]? = some true) : row[column]? = row'[column]? := by
  induction flags generalizing row row' column with
  | nil => simp at hcolumn
  | cons isVariable flags ih =>
    match row, row', hlength, hlength' with
    | bit :: row, bit' :: row', hlength, hlength' =>
      rw [List.length_cons, List.length_cons, Nat.succ.injEq] at hlength hlength'
      have hrest : (isVariable = true → bit = bit') ∧ selected flags row = selected flags row' := by
        cases isVariable <;> simpa [selected] using h
      cases column with
      | zero =>
        obtain rfl : isVariable = true := by simpa using hcolumn
        rw [hrest.1 rfl]
        rfl
      | succ column =>
        rw [List.getElem?_cons_succ] at hcolumn ⊢
        exact ih hlength hlength' hrest.2 hcolumn

/-- If every variable has the digit of a number that belongs to its place, then together they are
the last digits of that number. -/
lemma binary_selected (hlength : row.length = flags.length)
    (hcells : ∀ column, flags[column]? = some true →
      row[column]? = some (number.testBit ((flags.drop (column + 1)).count true))) :
    binary (selected flags row) = number % 2 ^ flags.count true := by
  induction flags generalizing row with
  | nil => simp [selected, Nat.mod_one]
  | cons isVariable flags ih =>
    cases row with
    | nil => simp at hlength
    | cons bit row =>
      have hlength' : row.length = flags.length := by simpa using hlength
      have hrest : binary (selected flags row) = number % 2 ^ flags.count true := by
        refine ih hlength' fun column hcolumn => ?_
        simpa using hcells (column + 1) (by simpa using hcolumn)
      cases isVariable with
      | false => simpa [selected] using hrest
      | true =>
        have hbit : bit = number.testBit (flags.count true) := by simpa using hcells 0 rfl
        have hcons : selected (true :: flags) (bit :: row) = bit :: selected flags row := rfl
        rw [hcons, binary_cons, length_selected hlength', hrest, hbit, Nat.toNat_testBit,
          List.count_cons_self, Nat.mod_pow_succ]
        ring

end TruthTables
