import Mathlib.Data.List.Basic
import Mathlib.Tactic.Common
import TruthTables.Parentheses

/-!
# Nesting of parentheses, continued

How the counter of open parentheses behaves on concatenated lists, and what it finds in balanced
lists: the connectives outside of all parentheses, the first place where one of them stands, and
whether the outermost parentheses are partners.
-/

namespace TruthTables

variable {op : Connective} {depth rest : Nat} {ts us left right inner : List Token}

/-! ### The counter -/

@[simp] lemma openAfter?_nil (depth : Nat) : openAfter? depth [] = some depth := rfl

@[simp] lemma openAfter?_openParen (depth : Nat) (ts : List Token) :
    openAfter? depth (.openParen :: ts) = openAfter? (depth + 1) ts := by
  simp [openAfter?, Token.depthAfter]

@[simp] lemma openAfter?_closeParen_succ (depth : Nat) (ts : List Token) :
    openAfter? (depth + 1) (.closeParen :: ts) = openAfter? depth ts := by
  simp [openAfter?, Token.depthAfter]

@[simp] lemma openAfter?_closeParen_zero (ts : List Token) :
    openAfter? 0 (.closeParen :: ts) = none := by
  simp [openAfter?]

@[simp] lemma openAfter?_connective (depth : Nat) (op : Connective) (ts : List Token) :
    openAfter? depth (.connective op :: ts) = openAfter? depth ts := by
  simp [openAfter?, Token.depthAfter]

@[simp] lemma openAfter?_name (depth : Nat) (word : String) (ts : List Token) :
    openAfter? depth (.name word :: ts) = openAfter? depth ts := by
  simp [openAfter?, Token.depthAfter]

lemma openAfter?_append (depth : Nat) (ts us : List Token) :
    openAfter? depth (ts ++ us) = (openAfter? depth ts).bind (openAfter? · us) := by
  induction ts generalizing depth with
  | nil => rfl
  | cons t ts ih =>
    simp only [List.cons_append, openAfter?]
    split
    · rfl
    · exact ih _

/-- Induction on a list of which each closing parenthesis finds one to close. -/
@[elab_as_elim]
theorem openAfter?_induction {rest : Nat}
    {motive : (depth : Nat) → (ts : List Token) → openAfter? depth ts = some rest → Prop}
    (nil : motive rest [] rfl)
    (openParen : ∀ depth ts (h : openAfter? (depth + 1) ts = some rest),
      motive (depth + 1) ts h → motive depth (.openParen :: ts) (by simpa using h))
    (closeParen : ∀ depth ts (h : openAfter? depth ts = some rest),
      motive depth ts h → motive (depth + 1) (.closeParen :: ts) (by simpa using h))
    (connective : ∀ op depth ts (h : openAfter? depth ts = some rest),
      motive depth ts h → motive depth (.connective op :: ts) (by simpa using h))
    (name : ∀ word depth ts (h : openAfter? depth ts = some rest),
      motive depth ts h → motive depth (.name word :: ts) (by simpa using h))
    (depth : Nat) (ts : List Token) (h : openAfter? depth ts = some rest) :
    motive depth ts h := by
  induction ts generalizing depth with
  | nil =>
    obtain rfl : depth = rest := by simpa using h
    exact nil
  | cons t ts ih =>
    match t, depth with
    | .openParen, depth => exact openParen depth ts (by simpa using h) (ih _ _)
    | .closeParen, 0 => simp at h
    | .closeParen, depth + 1 => exact closeParen depth ts (by simpa using h) (ih _ _)
    | .connective op, depth => exact connective op depth ts (by simpa using h) (ih _ _)
    | .name word, depth => exact name word depth ts (by simpa using h) (ih _ _)

/-- Parentheses that are open further out stay open. -/
lemma openAfter?_add (more : Nat) (h : openAfter? depth ts = some rest) :
    openAfter? (depth + more) ts = some (rest + more) := by
  induction depth, ts, h using openAfter?_induction with
  | nil => rfl
  | openParen depth ts h ih =>
    rw [openAfter?_openParen, Nat.add_right_comm]
    exact ih
  | closeParen depth ts h ih =>
    rw [Nat.add_right_comm, openAfter?_closeParen_succ]
    exact ih
  | connective op depth ts h ih => rwa [openAfter?_connective]
  | name word depth ts h ih => rwa [openAfter?_name]

/-- A list never comes down to zero from `depth + 1` exactly if each of its closing parentheses
finds one to close behind `depth` open ones. -/
lemma staysOpen_succ (depth : Nat) (ts : List Token) :
    staysOpen (depth + 1) ts = (openAfter? depth ts).isSome := by
  induction ts generalizing depth with
  | nil => rfl
  | cons t ts ih =>
    match t, depth with
    | .openParen, depth => simp [staysOpen, Token.depthAfter, ih]
    | .closeParen, 0 => simp [staysOpen, Token.depthAfter]
    | .closeParen, depth + 1 => simp [staysOpen, Token.depthAfter, ih]
    | .connective op, depth => simp [staysOpen, Token.depthAfter, ih]
    | .name word, depth => simp [staysOpen, Token.depthAfter, ih]

/-! ### Balanced lists -/

lemma Balanced.append (ht : Balanced ts) (hu : Balanced us) : Balanced (ts ++ us) := by
  rw [Balanced, openAfter?_append, ht]
  exact hu

lemma Balanced.right_of_append (h : Balanced (ts ++ us)) (ht : Balanced ts) : Balanced us := by
  rw [Balanced, openAfter?_append, ht] at h
  exact h

lemma Balanced.connective_cons (op : Connective) (h : Balanced ts) :
    Balanced (.connective op :: ts) := by
  rw [Balanced, openAfter?_connective]
  exact h

lemma Balanced.of_connective_cons (h : Balanced (.connective op :: ts)) : Balanced ts := by
  rwa [Balanced, openAfter?_connective] at h

lemma Balanced.parenthesize (h : Balanced inner) :
    Balanced (.openParen :: inner ++ [.closeParen]) := by
  have hinner : openAfter? 1 inner = some 1 := openAfter?_add 1 h
  rw [Balanced, List.cons_append, openAfter?_openParen, openAfter?_append, hinner]
  rfl

/-- One matching pair of parentheses around the rest. -/
def Parenthesized (ts : List Token) : Prop :=
  ∃ inner, Balanced inner ∧ ts = .openParen :: inner ++ [.closeParen]

lemma enclosed?_eq_some_iff :
    enclosed? ts = some inner ↔
      ts = .openParen :: inner ++ [.closeParen] ∧ (openAfter? 0 inner).isSome := by
  constructor
  · intro h
    unfold enclosed? at h
    split at h
    · rename_i us
      split at h
      · rename_i hlast
        split at h
        · rename_i hopen
          simp only [Option.some.injEq] at h
          subst h
          rw [staysOpen_succ] at hopen
          refine ⟨?_, hopen⟩
          rw [List.cons_append, List.dropLast_append_getLast? _ hlast]
        · simp at h
      · simp at h
    · simp at h
  · rintro ⟨rfl, hopen⟩
    rw [← staysOpen_succ 0] at hopen
    simp [enclosed?, hopen]

/-- In a balanced list the outermost parentheses are partners exactly if what they enclose is
balanced. -/
theorem enclosed?_eq_some_iff_of_balanced (h : Balanced ts) :
    enclosed? ts = some inner ↔ ts = .openParen :: inner ++ [.closeParen] ∧ Balanced inner := by
  rw [enclosed?_eq_some_iff]
  refine and_congr_right ?_
  rintro rfl
  constructor
  · -- what is still open in the middle would still be open at the end
    intro hopen
    obtain ⟨rest, hrest⟩ := Option.isSome_iff_exists.1 hopen
    have hinner : openAfter? 1 inner = some (rest + 1) := openAfter?_add 1 hrest
    rw [Balanced, List.cons_append, openAfter?_openParen, openAfter?_append, hinner] at h
    rw [Balanced, hrest]
    simpa using h
  · intro hinner
    rw [hinner]
    rfl

lemma enclosed?_eq_none_iff_of_balanced (h : Balanced ts) :
    enclosed? ts = none ↔ ¬ Parenthesized ts := by
  rw [Option.eq_none_iff_forall_ne_some]
  simp only [ne_eq, enclosed?_eq_some_iff_of_balanced h, Parenthesized, not_exists, and_comm]

/-! ### The first part of a balanced list -/

/-- The outermost of the open parentheses is closed at some place. -/
lemma exists_append_closeParen (h : openAfter? (depth + 1) ts = some 0) :
    ∃ us more, ts = us ++ .closeParen :: more ∧ openAfter? depth us = some 0 ∧ Balanced more := by
  induction ts generalizing depth with
  | nil => simp at h
  | cons t ts ih =>
    match t, depth with
    | .openParen, depth =>
      obtain ⟨us, more, rfl, hus, hmore⟩ := ih (openAfter?_openParen _ _ ▸ h)
      exact ⟨.openParen :: us, more, rfl, by rwa [openAfter?_openParen], hmore⟩
    | .closeParen, 0 => exact ⟨[], ts, rfl, rfl, by rwa [openAfter?_closeParen_succ] at h⟩
    | .closeParen, depth + 1 =>
      obtain ⟨us, more, rfl, hus, hmore⟩ := ih (openAfter?_closeParen_succ _ _ ▸ h)
      exact ⟨.closeParen :: us, more, rfl, by rwa [openAfter?_closeParen_succ], hmore⟩
    | .connective op, depth =>
      obtain ⟨us, more, rfl, hus, hmore⟩ := ih (openAfter?_connective _ _ _ ▸ h)
      exact ⟨.connective op :: us, more, rfl, by rwa [openAfter?_connective], hmore⟩
    | .name word, depth =>
      obtain ⟨us, more, rfl, hus, hmore⟩ := ih (openAfter?_name _ _ _ ▸ h)
      exact ⟨.name word :: us, more, rfl, by rwa [openAfter?_name], hmore⟩

/-- A balanced list begins with one token or with a pair of parentheses, and the rest of it is
balanced. -/
lemma Balanced.exists_append (h : Balanced ts) (hne : ts ≠ []) :
    ∃ first more, ts = first ++ more ∧ Balanced first ∧ Balanced more ∧
      ((∃ t, first = [t]) ∨ Parenthesized first) := by
  match ts with
  | .openParen :: ts =>
    rw [Balanced, openAfter?_openParen] at h
    obtain ⟨inner, more, rfl, hopen, hmore⟩ := exists_append_closeParen h
    have hinner : Balanced inner := hopen
    refine ⟨.openParen :: inner ++ [.closeParen], more, by simp, hinner.parenthesize, hmore, ?_⟩
    exact Or.inr ⟨inner, hinner, rfl⟩
  | .closeParen :: ts => simp [Balanced] at h
  | .connective op :: ts =>
    exact ⟨[.connective op], ts, rfl, by simp [Balanced], h.of_connective_cons, Or.inl ⟨_, rfl⟩⟩
  | .name word :: ts =>
    rw [Balanced, openAfter?_name] at h
    exact ⟨[.name word], ts, rfl, by simp [Balanced], h, Or.inl ⟨_, rfl⟩⟩

/-- Two balanced lists side by side are not one pair of parentheses around the rest. -/
lemma not_parenthesized_append (ht : Balanced ts) (hts : ts ≠ []) (hus : us ≠ []) :
    ¬ Parenthesized (ts ++ us) := by
  rintro ⟨inner, hinner, heq⟩
  obtain ⟨t, ts, rfl⟩ := List.exists_cons_of_ne_nil hts
  obtain ⟨rfl, htail⟩ := List.cons.inj heq
  have hlast : ts ++ us.dropLast = inner := by
    have hinit := congrArg List.dropLast htail
    rwa [List.append_eq, List.append_eq, List.dropLast_append_of_ne_nil hus,
      List.dropLast_concat] at hinit
  rw [Balanced, ← hlast, openAfter?_append] at hinner
  obtain ⟨depth, hdepth, -⟩ := Option.bind_eq_some_iff.1 hinner
  have hopen : openAfter? 1 ts = some (depth + 1) := by
    rw [← openAfter?_add 1 hdepth]
  rw [Balanced, openAfter?_openParen, hopen] at ht
  simp at ht

/-! ### Connectives outside of all parentheses -/

/-- The connectives outside of all parentheses from left to right, if `depth` parentheses are open
before `ts`. -/
def outer (depth : Nat) : List Token → List Connective
  | [] => []
  | .connective op :: ts => if depth = 0 then op :: outer depth ts else outer depth ts
  | t :: ts => outer (t.depthAfter depth) ts

@[simp] lemma outer_nil (depth : Nat) : outer depth [] = [] := rfl

@[simp] lemma outer_connective_zero (op : Connective) (ts : List Token) :
    outer 0 (.connective op :: ts) = op :: outer 0 ts := by
  simp [outer]

lemma outer_append (h : openAfter? depth ts = some rest) (us : List Token) :
    outer depth (ts ++ us) = outer depth ts ++ outer rest us := by
  induction depth, ts, h using openAfter?_induction with
  | nil => rfl
  | openParen depth ts h ih => exact ih
  | closeParen depth ts h ih => exact ih
  | connective op depth ts h ih =>
    simp only [List.cons_append, outer, ih]
    split <;> rfl
  | name word depth ts h ih => exact ih

lemma outer_append_of_balanced (h : Balanced ts) (us : List Token) :
    outer 0 (ts ++ us) = outer 0 ts ++ outer 0 us :=
  outer_append h us

/-- Under an open parenthesis nothing is outside. -/
lemma outer_succ (h : openAfter? depth ts = some rest) : outer (depth + 1) ts = [] := by
  induction depth, ts, h using openAfter?_induction with
  | nil => rfl
  | openParen depth ts h ih => exact ih
  | closeParen depth ts h ih => exact ih
  | connective op depth ts h ih => rwa [outer, if_neg depth.succ_ne_zero]
  | name word depth ts h ih => exact ih

lemma outer_parenthesize (h : Balanced inner) :
    outer 0 (.openParen :: inner ++ [.closeParen]) = [] := by
  have hinner : openAfter? 1 inner = some 1 := openAfter?_add 1 h
  show outer 1 (inner ++ [.closeParen]) = []
  rw [outer_append hinner, outer_succ h]
  rfl

lemma mem_of_mem_outer (h : op ∈ outer depth ts) : .connective op ∈ ts := by
  induction ts generalizing depth with
  | nil => simp at h
  | cons t ts ih =>
    cases t with
    | connective found =>
      rw [outer] at h
      split at h
      · rcases List.mem_cons.1 h with rfl | h
        · exact List.mem_cons_self
        · exact List.mem_cons_of_mem _ (ih h)
      · exact List.mem_cons_of_mem _ (ih h)
    | openParen => exact List.mem_cons_of_mem _ (ih h)
    | closeParen => exact List.mem_cons_of_mem _ (ih h)
    | name word => exact List.mem_cons_of_mem _ (ih h)

/-! ### Cutting at a connective -/

lemma splitAt?_eq_none_iff : splitAt? op depth ts = none ↔ op ∉ outer depth ts := by
  induction ts generalizing depth with
  | nil => simp [splitAt?]
  | cons t ts ih =>
    cases t with
    | connective found =>
      rw [splitAt?, outer]
      by_cases hdepth : depth = 0
      · by_cases hop : found = op
        · simp [hdepth, hop]
        · simp [hdepth, hop, Ne.symm hop, Token.depthAfter, ih]
      · simp [hdepth, Token.depthAfter, ih]
    | openParen => simp [splitAt?, outer, ih]
    | closeParen => simp [splitAt?, outer, ih]
    | name word => simp [splitAt?, outer, ih]

lemma splitAt?_cons_eq_some_iff {t : Token} (ht : ¬ (t = .connective op ∧ depth = 0)) :
    splitAt? op depth (t :: ts) = some (left, right) ↔
      ∃ us, left = t :: us ∧ splitAt? op (t.depthAfter depth) ts = some (us, right) := by
  rw [splitAt?, if_neg ht]
  constructor
  · intro h
    obtain ⟨parts, hparts, heq⟩ := Option.map_eq_some_iff.1 h
    obtain ⟨rfl, rfl⟩ := Prod.mk.inj heq
    exact ⟨parts.1, rfl, hparts⟩
  · rintro ⟨us, rfl, h⟩
    rw [h]
    rfl

/-- In front of a cut every parenthesis is closed, and the connective does not occur outside. -/
lemma before_splitAt? (h : openAfter? depth ts = some rest)
    (hcut : splitAt? op depth ts = some (left, right)) :
    openAfter? depth left = some 0 ∧ op ∉ outer depth left := by
  induction depth, ts, h using openAfter?_induction generalizing left with
  | nil => simp [splitAt?] at hcut
  | openParen depth ts h ih =>
    obtain ⟨us, rfl, hus⟩ := (splitAt?_cons_eq_some_iff (by simp)).1 hcut
    rw [openAfter?_openParen]
    exact ih hus
  | closeParen depth ts h ih =>
    obtain ⟨us, rfl, hus⟩ := (splitAt?_cons_eq_some_iff (by simp)).1 hcut
    rw [openAfter?_closeParen_succ]
    exact ih hus
  | connective found depth ts h ih =>
    by_cases hfound : found = op ∧ depth = 0
    · -- the cut is made here
      obtain ⟨rfl, rfl⟩ := hfound
      rw [splitAt?, if_pos ⟨rfl, rfl⟩] at hcut
      obtain ⟨rfl, -⟩ := Prod.mk.inj (Option.some.inj hcut)
      simp
    · -- the cut is made further to the right
      obtain ⟨us, rfl, hus⟩ := (splitAt?_cons_eq_some_iff (by simpa using hfound)).1 hcut
      obtain ⟨hleft, hop⟩ := ih hus
      refine ⟨by rwa [openAfter?_connective], ?_⟩
      rw [outer]
      split
      · -- outside of parentheses, where a connective that is passed over is not `op`
        rename_i hdepth
        rw [List.mem_cons, not_or]
        exact ⟨fun heq => hfound ⟨heq.symm, hdepth⟩, hop⟩
      · exact hop
  | name word depth ts h ih =>
    obtain ⟨us, rfl, hus⟩ := (splitAt?_cons_eq_some_iff (by simp)).1 hcut
    rw [openAfter?_name]
    exact ih hus

/-- A list is cut at the first place where the connective stands outside of all parentheses. -/
theorem splitAt?_eq_some_iff (h : openAfter? depth ts = some rest) :
    splitAt? op depth ts = some (left, right) ↔
      ts = left ++ .connective op :: right ∧ openAfter? depth left = some 0 ∧
        op ∉ outer depth left := by
  constructor
  · intro hcut
    exact ⟨eq_append_of_splitAt? hcut, before_splitAt? h hcut⟩
  · rintro ⟨rfl, hleft, hop⟩
    -- nothing in `left` is cut at, so the search arrives at the connective behind it
    clear h
    induction depth, left, hleft using openAfter?_induction with
    | nil => simp [splitAt?]
    | openParen depth ts h ih => simp [splitAt?, Token.depthAfter, ih hop]
    | closeParen depth ts h ih => simp [splitAt?, Token.depthAfter, ih hop]
    | connective found depth ts h ih =>
      rw [outer] at hop
      by_cases hdepth : depth = 0
      · rw [if_pos hdepth, List.mem_cons, not_or] at hop
        simp [splitAt?, Token.depthAfter, ih hop.2, Ne.symm hop.1]
      · rw [if_neg hdepth] at hop
        simp [splitAt?, Token.depthAfter, ih hop, hdepth]
    | name word depth ts h ih => simp [splitAt?, Token.depthAfter, ih hop]

end TruthTables
