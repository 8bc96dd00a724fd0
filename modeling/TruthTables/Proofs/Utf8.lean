import Mathlib.Data.List.Induction
import Mathlib.Tactic.Common
import TruthTables.Text.Utf8

/-!
# UTF-8, continued

The bytes of a character below 128 are that one number, and all bytes of other characters are 128 or
above. So what turns on ASCII characters alone can be done on bytes.
-/

namespace TruthTables.Text

variable {c : Char} {s t : List Char}

@[simp] lemma encode_nil : encode [] = [] := rfl

lemma encode_cons (c : Char) (s : List Char) :
    encode (c :: s) = String.utf8EncodeChar c ++ encode s :=
  List.flatMap_cons

lemma encode_append (s t : List Char) : encode (s ++ t) = encode s ++ encode t :=
  List.flatMap_append

lemma encode_concat (s : List Char) (c : Char) :
    encode (s ++ [c]) = encode s ++ String.utf8EncodeChar c := by
  rw [encode_append, encode_cons, encode_nil, List.append_nil]

lemma encodeChar_of_lt (h : c.toNat < 128) :
    String.utf8EncodeChar c = [UInt8.ofNat c.toNat] := by
  have hle : c.val.toNat ≤ 127 := Nat.le_of_lt_succ h
  simp only [String.utf8EncodeChar, hle, if_pos]
  rfl

lemma le_of_mem_encodeChar (h : 128 ≤ c.toNat) :
    ∀ b ∈ String.utf8EncodeChar c, 128 ≤ b.toNat := by
  have hlt : ¬ c.val.toNat ≤ 127 := Nat.not_le.2 h
  intro b hb
  simp only [String.utf8EncodeChar, hlt, if_false] at hb
  split at hb
  · simp only [List.mem_cons, List.not_mem_nil, or_false] at hb
    rcases hb with rfl | rfl <;> simp <;> omega
  · split at hb
    · simp only [List.mem_cons, List.not_mem_nil, or_false] at hb
      rcases hb with rfl | rfl | rfl <;> simp <;> omega
    · simp only [List.mem_cons, List.not_mem_nil, or_false] at hb
      rcases hb with rfl | rfl | rfl | rfl <;> simp <;> omega

lemma encodeChar_ne_nil (c : Char) : String.utf8EncodeChar c ≠ [] := by
  rw [← List.length_pos_iff, String.length_utf8EncodeChar]
  exact c.utf8Size_pos

/-! ### Dropping bytes at the ends -/

section

variable {p : UInt8 → Bool}

/-- A character that is one byte, and that byte has the property. -/
def IsByteWith (p : UInt8 → Bool) (c : Char) : Prop :=
  c.toNat < 128 ∧ p (UInt8.ofNat c.toNat)

variable (hp : ∀ b, p b → b.toNat < 128)

include hp

/-- No byte of any other character has the property. -/
lemma eq_false_of_mem_encodeChar (hc : ¬ IsByteWith p c) :
    ∀ b ∈ String.utf8EncodeChar c, p b = false := by
  intro b hb
  by_contra hpb
  rw [Bool.not_eq_false] at hpb
  by_cases hlt : c.toNat < 128
  · rw [encodeChar_of_lt hlt, List.mem_singleton] at hb
    exact hc ⟨hlt, hb ▸ hpb⟩
  · exact absurd (hp b hpb) (Nat.not_lt.2 (le_of_mem_encodeChar (Nat.not_lt.1 hlt) b hb))

lemma exists_dropWhile_encode (s : List Char) :
    ∃ before t, s = before ++ t ∧ (∀ c ∈ before, IsByteWith p c) ∧
      (encode s).dropWhile p = encode t := by
  induction s with
  | nil => exact ⟨[], [], rfl, by simp, rfl⟩
  | cons c s ih =>
    by_cases hc : IsByteWith p c
    · -- a single byte, which is dropped
      obtain ⟨before, t, rfl, hbefore, hdrop⟩ := ih
      refine ⟨c :: before, t, rfl, List.forall_mem_cons.2 ⟨hc, hbefore⟩, ?_⟩
      rw [encode_cons, encodeChar_of_lt hc.1, List.singleton_append,
        List.dropWhile_cons_of_pos hc.2, hdrop]
    · -- all bytes of the character stay
      refine ⟨[], c :: s, rfl, by simp, ?_⟩
      obtain ⟨b, bs, hbytes⟩ := List.exists_cons_of_ne_nil (encodeChar_ne_nil c)
      have hb := eq_false_of_mem_encodeChar hp hc b (by simp [hbytes])
      rw [encode_cons, hbytes, List.cons_append, List.dropWhile_cons_of_neg (by simp [hb])]

lemma exists_dropWhile_reverse_encode (s : List Char) :
    ∃ t after, s = t ++ after ∧ (∀ c ∈ after, IsByteWith p c) ∧
      ((encode s).reverse.dropWhile p).reverse = encode t := by
  induction s using List.reverseRecOn with
  | nil => exact ⟨[], [], rfl, by simp, rfl⟩
  | append_singleton s c ih =>
    by_cases hc : IsByteWith p c
    · obtain ⟨t, after, rfl, hafter, hdrop⟩ := ih
      refine ⟨t, after ++ [c], by rw [List.append_assoc], ?_, ?_⟩
      · exact List.forall_mem_append.2 ⟨hafter, by simpa using hc⟩
      · rw [encode_concat, encodeChar_of_lt hc.1, List.reverse_append, List.reverse_singleton,
          List.singleton_append, List.dropWhile_cons_of_pos hc.2, hdrop]
    · refine ⟨s ++ [c], [], by rw [List.append_nil], by simp, ?_⟩
      obtain ⟨b, bs, hbytes⟩ := List.exists_cons_of_ne_nil
        (List.reverse_ne_nil_iff.2 (encodeChar_ne_nil c))
      have hb := eq_false_of_mem_encodeChar hp hc b (by rw [← List.mem_reverse]; simp [hbytes])
      rw [encode_concat, List.reverse_append, hbytes, List.cons_append,
        List.dropWhile_cons_of_neg (by simp [hb]), ← List.cons_append, ← hbytes,
        ← List.reverse_append, List.reverse_reverse]

end

end TruthTables.Text
