import TruthTables.Proofs.Counting

/-!
# Valuations in counting order

The lists of a number of digits, in the order of the numbers that they are. Main statement: where
some of the digits are fixed, the number of lists is two to the power of the number of the others.
-/

namespace TruthTables

variable {bits : List Bool} {n number : Nat}

/-- All lists of `n` digits in counting order. -/
def valuations : Nat → List (List Bool)
  | 0 => [[]]
  | n + 1 => (valuations n).map (false :: ·) ++ (valuations n).map (true :: ·)

@[simp] lemma length_valuations (n : Nat) : (valuations n).length = 2 ^ n := by
  induction n with
  | zero => rfl
  | succ n ih =>
    rw [valuations, List.length_append, List.length_map, List.length_map, ih]
    ring

/-- The list with a number stands at the place with that number. -/
lemma getElem?_valuations (h : (valuations n)[number]? = some bits) :
    bits.length = n ∧ binary bits = number := by
  induction n generalizing number bits with
  | zero =>
    obtain ⟨hlt, rfl⟩ := List.getElem?_eq_some_iff.1 h
    obtain rfl : number = 0 := by simpa [valuations] using hlt
    exact ⟨rfl, rfl⟩
  | succ n ih =>
    rw [valuations] at h
    by_cases hlt : number < 2 ^ n
    · -- the first half, where the first digit is zero
      rw [List.getElem?_append_left (by simpa using hlt), List.getElem?_map] at h
      obtain ⟨rest, hrest, rfl⟩ := Option.map_eq_some_iff.1 h
      obtain ⟨hlength, hbinary⟩ := ih hrest
      exact ⟨by rw [List.length_cons, hlength], by simp [binary_cons, hbinary]⟩
    · -- the second half, where it is one
      rw [List.getElem?_append_right (by simpa using hlt), List.getElem?_map, List.length_map,
        length_valuations] at h
      obtain ⟨rest, hrest, rfl⟩ := Option.map_eq_some_iff.1 h
      obtain ⟨hlength, hbinary⟩ := ih hrest
      refine ⟨by rw [List.length_cons, hlength], ?_⟩
      rw [binary_cons, hlength, hbinary, Bool.toNat_true]
      omega

/-- Lists of digits that come in counting order are all lists of their length. -/
lemma eq_valuations {lists : List (List Bool)} (hlength : lists.length = 2 ^ n)
    (h : ∀ number bits, lists[number]? = some bits → bits.length = n ∧ binary bits = number) :
    lists = valuations n := by
  refine List.ext_getElem (by rw [hlength, length_valuations]) fun number hlt hlt' => ?_
  obtain ⟨hn, hnumber⟩ := h number _ (List.getElem?_eq_getElem hlt)
  obtain ⟨hn', hnumber'⟩ := getElem?_valuations (List.getElem?_eq_getElem hlt')
  exact binary_injective (hn.trans hn'.symm) (hnumber.trans hnumber'.symm)

/-- Whether the digits are those that are fixed, where there are such. -/
def agrees : List (Option Bool) → List Bool → Bool
  | o :: fixed, bit :: bits => o.getD bit == bit && agrees fixed bits
  | _, _ => true

lemma countP_agrees (fixed : List (Option Bool)) :
    (valuations fixed.length).countP (agrees fixed) = 2 ^ fixed.count none := by
  induction fixed with
  | nil => rfl
  | cons o fixed ih =>
    rw [List.length_cons, valuations, List.countP_append, List.countP_map, List.countP_map]
    have hcons : ∀ bit : Bool, agrees (o :: fixed) ∘ (bit :: ·) =
        fun bits => o.getD bit == bit && agrees fixed bits := fun bit => rfl
    rw [hcons, hcons]
    cases o with
    | none =>
      simp only [Option.getD_none, beq_self_eq_true, Bool.true_and, List.count_cons_self, ih]
      ring
    | some value => cases value <;> simp [ih]

end TruthTables
