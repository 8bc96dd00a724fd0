import Mathlib.Data.List.Induction
import TruthTables.Proofs.Parentheses

/-!
# Partners

Which parentheses belong together, and what stands outside of all of them, said by places in a list
of tokens and without a counter. Main statement: in a balanced list the counters find just that.
-/

namespace TruthTables

variable {op : Connective} {depth rest : Nat} {ts us left right : List Token} {t : Token} {i : Nat}

/-- The parenthesis that is opened at `i` is closed at `j`: what stands between them is balanced. -/
def Partners (ts : List Token) (i j : Nat) : Prop :=
  ∃ before inner after, ts = before ++ .openParen :: inner ++ .closeParen :: after ∧
    Balanced inner ∧ before.length = i ∧ i + inner.length + 1 = j

/-- No two partners have the place `i` between them. -/
def IsOutside (ts : List Token) (i : Nat) : Prop :=
  ∀ j k, Partners ts j k → ¬ (j < i ∧ i < k)

/-- The first place outside of all parentheses where the connective stands. -/
structure IsFirstOutside (op : Connective) (ts : List Token) (i : Nat) : Prop where
  getElem? : ts[i]? = some (.connective op)
  outside : IsOutside ts i
  first : ∀ j < i, ts[j]? = some (.connective op) → ¬ IsOutside ts j

/-! ### Counting -/

lemma openAfter?_append_eq_some_iff :
    openAfter? depth (ts ++ us) = some rest ↔
      ∃ between, openAfter? depth ts = some between ∧ openAfter? between us = some rest := by
  rw [openAfter?_append, Option.bind_eq_some_iff]

/-- Where the counter is above zero, some parenthesis is open since it was at zero the last time. -/
lemma exists_append_openParen (h : openAfter? 0 ts = some (rest + 1)) :
    ∃ us more, ts = us ++ .openParen :: more ∧ Balanced us ∧ openAfter? 0 more = some rest := by
  induction ts using List.reverseRecOn generalizing rest with
  | nil => simp at h
  | append_singleton ts t ih =>
    obtain ⟨between, hts, ht⟩ := openAfter?_append_eq_some_iff.1 h
    cases between with
    | zero =>
      -- all are closed in front of the last token, so this one opens
      cases t with
      | openParen =>
        obtain rfl : rest = 0 := by simpa using ht
        exact ⟨ts, [], rfl, hts, rfl⟩
      | closeParen | connective | name => simp at ht
    | succ between =>
      -- the parenthesis is open already in front of the last token
      obtain ⟨us, more, rfl, hus, hmore⟩ := ih hts
      refine ⟨us, more ++ [t], by simp, hus, openAfter?_append_eq_some_iff.2 ⟨_, hmore, ?_⟩⟩
      cases t with
      | closeParen =>
        obtain rfl : between = rest + 1 := by simpa using ht
        rfl
      | openParen | connective | name => simpa using ht

/-- Between two partners the counter is above zero. -/
lemma not_balanced_append_openParen (h : Balanced (ts ++ us)) (before : List Token) :
    ¬ Balanced (before ++ .openParen :: ts) := by
  intro hbalanced
  obtain ⟨depth, -, hopen⟩ := openAfter?_append_eq_some_iff.1 hbalanced
  obtain ⟨more, hts, -⟩ := openAfter?_append_eq_some_iff.1 h
  have habove := openAfter?_add (depth + 1) hts
  rw [openAfter?_openParen] at hopen
  rw [Nat.zero_add, hopen] at habove
  simp at habove

/-- As long as every closing parenthesis finds one to close, the counter that stops at zero counts
the same. -/
lemma foldl_depthAfter (h : openAfter? depth ts = some rest) :
    ts.foldl Token.depthAfter depth = rest := by
  induction depth, ts, h using openAfter?_induction with
  | nil => rfl
  | openParen depth ts h ih => exact ih
  | closeParen depth ts h ih => exact ih
  | connective op depth ts h ih => exact ih
  | name word depth ts h ih => exact ih

/-- In a balanced list the counter is never at zero before a closing parenthesis. -/
lemma Balanced.foldl_depthAfter_pos (h : Balanced (left ++ .closeParen :: right)) :
    0 < left.foldl Token.depthAfter 0 := by
  obtain ⟨depth, hleft, hright⟩ := openAfter?_append_eq_some_iff.1 h
  rw [foldl_depthAfter hleft]
  cases depth with
  | zero => simp at hright
  | succ depth => exact depth.succ_pos

/-- As long as a list is not yet down to depth zero, the counter can go down by one. -/
lemma foldl_depthAfter_pos_of_staysOpen (h : staysOpen (depth + 1) ts) :
    0 < ts.foldl Token.depthAfter (depth + 1) := by
  induction ts generalizing depth with
  | nil => exact depth.succ_pos
  | cons t ts ih =>
    rw [staysOpen, Bool.and_eq_true, bne_iff_ne] at h
    obtain ⟨hne, hopen⟩ := h
    obtain ⟨between, hbetween⟩ := Nat.exists_eq_succ_of_ne_zero hne
    rw [hbetween] at hopen
    rw [List.foldl_cons, hbetween]
    exact ih hopen

/-! ### The outermost parentheses -/

lemma parenthesized_iff_partners : Parenthesized ts ↔ Partners ts 0 (ts.length - 1) := by
  constructor
  · rintro ⟨inner, hinner, rfl⟩
    exact ⟨[], inner, [], rfl, hinner, rfl, by simp⟩
  · rintro ⟨before, inner, after, rfl, hinner, hbefore, hlength⟩
    obtain rfl := List.length_eq_zero_iff.1 hbefore
    obtain rfl : after = [] := by
      simp only [List.length_append, List.length_cons] at hlength
      exact List.length_eq_zero_iff.1 (by omega)
    exact ⟨inner, hinner, rfl⟩

/-- In a balanced list the outermost parentheses are dropped exactly if the first token and the last
one are partners. -/
theorem isSome_enclosed?_iff (h : Balanced ts) :
    (enclosed? ts).isSome ↔ Partners ts 0 (ts.length - 1) := by
  rw [← parenthesized_iff_partners, Option.isSome_iff_exists]
  simp only [enclosed?_eq_some_iff_of_balanced h, Parenthesized, and_comm]

-- In a list that is not balanced, the last parenthesis need not close the first one.
example : (enclosed? [.openParen, .openParen, .name "p", .closeParen]).isSome := by decide

/-! ### The first place outside -/

/-- Of two ways to cut a list in two, the later one cuts what is behind the earlier one. -/
lemma exists_append_of_length_le {before after : List Token}
    (h : left ++ right = before ++ after) (hle : before.length ≤ left.length) :
    ∃ us, left = before ++ us ∧ after = us ++ right := by
  rcases List.append_eq_append_iff.1 h with ⟨us, rfl, rfl⟩ | ⟨us, rfl, rfl⟩
  · obtain rfl : us = [] := by
      rw [List.length_append] at hle
      exact List.length_eq_zero_iff.1 (by omega)
    exact ⟨[], by simp, rfl⟩
  · exact ⟨us, rfl, rfl⟩

/-- A connective stands outside of all parentheses exactly if those before it are balanced. -/
lemma isOutside_iff (h : Balanced (left ++ .connective op :: right)) :
    IsOutside (left ++ .connective op :: right) left.length ↔ Balanced left := by
  constructor
  · -- what is open on the left is closed on the right, around the connective
    intro houtside
    obtain ⟨depth, hleft, hright⟩ := openAfter?_append_eq_some_iff.1 h
    rw [openAfter?_connective] at hright
    cases depth with
    | zero => exact hleft
    | succ depth =>
      obtain ⟨before, us, rfl, hbefore, hus⟩ := exists_append_openParen hleft
      obtain ⟨vs, after, rfl, hvs, hafter⟩ := exists_append_closeParen hright
      have hinner : Balanced (us ++ .connective op :: vs) :=
        openAfter?_append_eq_some_iff.2 ⟨depth, hus, by rwa [openAfter?_connective]⟩
      refine absurd ?_ (houtside _ _ ⟨before, _, after, ?_, hinner, rfl, rfl⟩)
      · simp only [List.length_append, List.length_cons]
        omega
      · simp
  · -- partners around the connective would be open at the end of `left`
    rintro hleft j k ⟨before, inner, after, heq, hinner, rfl, rfl⟩ ⟨hj, hk⟩
    have hcut : left ++ .connective op :: right =
        (before ++ [.openParen]) ++ (inner ++ .closeParen :: after) := by simp [heq]
    obtain ⟨us, rfl, hus⟩ := exists_append_of_length_le hcut (by simpa [Nat.succ_le_iff] using hj)
    obtain ⟨vs, rfl, -⟩ := exists_append_of_length_le hus (by
      simp only [List.length_append, List.length_singleton] at hk
      omega)
    rw [List.append_assoc] at hleft
    exact not_balanced_append_openParen hinner before hleft

lemma mem_outer_iff (h : Balanced ts) :
    op ∈ outer 0 ts ↔ ∃ left right, ts = left ++ .connective op :: right ∧ Balanced left := by
  constructor
  · intro hop
    have hcut : splitAt? op 0 ts ≠ none := fun hnone => splitAt?_eq_none_iff.1 hnone hop
    obtain ⟨⟨left, right⟩, hparts⟩ := Option.ne_none_iff_exists'.1 hcut
    obtain ⟨hts, hleft, -⟩ := (splitAt?_eq_some_iff h).1 hparts
    exact ⟨left, right, hts, hleft⟩
  · rintro ⟨left, right, rfl, hleft⟩
    rw [outer_append_of_balanced hleft]
    simp

lemma exists_append_of_getElem? (h : ts[i]? = some t) :
    ∃ left right, ts = left ++ t :: right ∧ left.length = i := by
  obtain ⟨hlt, rfl⟩ := List.getElem?_eq_some_iff.1 h
  refine ⟨ts.take i, ts.drop (i + 1), ?_, List.length_take_of_le (Nat.le_of_lt hlt)⟩
  rw [List.getElem_cons_drop, List.take_append_drop]

/-- The place where a list is cut at a connective. -/
def cutPlace? (op : Connective) (ts : List Token) : Option Nat :=
  (splitAt? op 0 ts).map fun parts => parts.1.length

/-- A balanced list is cut at the first place outside of all parentheses where the connective
stands. -/
theorem cutPlace?_eq_some_iff (h : Balanced ts) :
    cutPlace? op ts = some i ↔ IsFirstOutside op ts i := by
  rw [cutPlace?, Option.map_eq_some_iff]
  constructor
  · -- the cut is outside, and no connective before it is
    rintro ⟨⟨left, right⟩, hcut, rfl⟩
    obtain ⟨rfl, hleft, hop⟩ := (splitAt?_eq_some_iff h).1 hcut
    refine ⟨by simp, (isOutside_iff h).2 hleft, ?_⟩
    intro j hj hget houtside
    rw [List.getElem?_append_left hj] at hget
    obtain ⟨before, between, rfl, rfl⟩ := exists_append_of_getElem? hget
    rw [List.append_assoc, List.cons_append] at h houtside
    exact hop ((mem_outer_iff hleft).2 ⟨before, between, rfl, (isOutside_iff h).1 houtside⟩)
  · -- nothing is cut at before the first connective outside
    rintro ⟨hget, houtside, hfirst⟩
    obtain ⟨left, right, rfl, rfl⟩ := exists_append_of_getElem? hget
    have hleft := (isOutside_iff h).1 houtside
    refine ⟨(left, right), (splitAt?_eq_some_iff h).2 ⟨rfl, hleft, fun hop => ?_⟩, rfl⟩
    obtain ⟨before, between, rfl, hbefore⟩ := (mem_outer_iff hleft).1 hop
    rw [List.append_assoc, List.cons_append] at h hfirst
    exact hfirst before.length (by simp) (by simp) ((isOutside_iff h).2 hbefore)

/-! ### Balanced lists -/

/-- What the counters find in a list is what its parentheses are, and none of them goes below
zero. -/
structure CountsRight (ts : List Token) : Prop where
  /-- The search for a cut: where a parenthesis is closed, its counter is above zero. -/
  cutDepth_pos : ∀ left right, ts = left ++ .closeParen :: right →
    0 < left.foldl Token.depthAfter 0
  /-- The search for the partner of the first parenthesis, likewise as far as it goes. -/
  partnerDepth_pos : ∀ left right, ts = .openParen :: left ++ .closeParen :: right →
    staysOpen 1 left → 0 < left.foldl Token.depthAfter 1
  /-- Outermost parentheses are found exactly if the first and the last token are partners. -/
  encloses : (enclosed? ts).isSome ↔ Partners ts 0 (ts.length - 1)
  /-- A cut is made at the first place of the connective outside of all parentheses. -/
  cuts : ∀ op i, cutPlace? op ts = some i ↔ IsFirstOutside op ts i

theorem Balanced.countsRight (h : Balanced ts) : CountsRight ts where
  cutDepth_pos := by
    rintro left right rfl
    exact h.foldl_depthAfter_pos
  partnerDepth_pos _ _ _ hopen := foldl_depthAfter_pos_of_staysOpen hopen
  encloses := isSome_enclosed?_iff h
  cuts _ _ := cutPlace?_eq_some_iff h

end TruthTables
