import Mathlib.Data.List.Forall2
import Mathlib.Tactic.Common
import TruthTables.Logged

/-!
# Results without their logs

The result of a logged computation is computed from the results of its parts, whatever these
logged.
-/

namespace TruthTables

variable {ω ω' ε ε' α β γ : Type}

/-! ### Lists related element by element -/

lemma getElem?_of_forall₂ {R : α → β → Prop} {as : List α} {bs : List β} {i : Nat} {a : α}
    (h : List.Forall₂ R as bs) (ha : as[i]? = some a) : ∃ b, bs[i]? = some b ∧ R a b := by
  obtain ⟨hlt, rfl⟩ := List.getElem?_eq_some_iff.1 ha
  have hlt' : i < bs.length := h.length_eq ▸ hlt
  exact ⟨bs[i], List.getElem?_eq_getElem hlt', h.get hlt hlt'⟩

lemma exists_forall₂_iff {R : α → β → Prop} {as : List α} :
    (∃ bs, List.Forall₂ R as bs) ↔ ∀ a ∈ as, ∃ b, R a b := by
  induction as with
  | nil => simp
  | cons a as ih =>
    rw [List.forall_mem_cons, ← ih]
    constructor
    · rintro ⟨_, hall⟩
      obtain ⟨b, bs, hb, hbs, -⟩ := List.forall₂_cons_left_iff.1 hall
      exact ⟨⟨b, hb⟩, ⟨bs, hbs⟩⟩
    · rintro ⟨⟨b, hb⟩, ⟨bs, hbs⟩⟩
      exact ⟨b :: bs, .cons hb hbs⟩

/-- Elements can be exchanged for others that are related to the same ones. -/
lemma forall₂_congr_left {S : α → γ → Prop} {R : α → β → Prop} {R' : γ → β → Prop} {as : List α}
    {as' : List γ} {bs : List β} (h : List.Forall₂ S as as')
    (hR : ∀ a a' b, S a a' → (R a b ↔ R' a' b)) :
    List.Forall₂ R as bs ↔ List.Forall₂ R' as' bs := by
  induction h generalizing bs with
  | nil => rw [List.forall₂_nil_left_iff, List.forall₂_nil_left_iff]
  | cons ha has ih =>
    rw [List.forall₂_cons_left_iff, List.forall₂_cons_left_iff]
    simp only [hR _ _ _ ha, ih]

/-! ### Results that may be failures -/

@[simp] lemma ok_bind (a : α) (f : α → Except ε β) : (Except.ok a >>= f) = f a := rfl

@[simp] lemma error_bind (e : ε) (f : α → Except ε β) : (Except.error e >>= f) = .error e := rfl

@[simp] lemma map_ok (f : α → β) (a : α) : (Except.ok a : Except ε α).map f = .ok (f a) := rfl

@[simp] lemma map_error (f : α → β) (e : ε) : (Except.error e : Except ε α).map f = .error e := rfl

@[simp] lemma mapError_ok (f : ε → ε') (a : α) :
    (Except.ok a : Except ε α).mapError f = .ok a := rfl

@[simp] lemma mapError_error (f : ε → ε') (e : ε) :
    (Except.error e : Except ε α).mapError f = .error (f e) := rfl

lemma map_eq_ok_iff {f : α → β} {x : Except ε α} {b : β} :
    x.map f = .ok b ↔ ∃ a, x = .ok a ∧ f a = b := by
  cases x <;> simp

lemma mapError_eq_ok_iff {f : ε → ε'} {x : Except ε α} {a : α} :
    x.mapError f = .ok a ↔ x = .ok a := by
  cases x <;> simp

lemma mapError_eq_error_iff {f : ε → ε'} {x : Except ε α} {e' : ε'} :
    x.mapError f = .error e' ↔ ∃ e, x = .error e ∧ f e = e' := by
  cases x <;> simp

/-- A list runs to an end exactly if each of its elements does. -/
lemma mapM_eq_ok_iff {f : α → Except ε β} {as : List α} {bs : List β} :
    as.mapM f = .ok bs ↔ List.Forall₂ (fun a b => f a = .ok b) as bs := by
  induction as generalizing bs with
  | nil =>
    rw [List.mapM_nil, List.forall₂_nil_left_iff]
    constructor
    · intro h
      exact (Except.ok.inj h).symm
    · rintro rfl
      rfl
  | cons a as ih =>
    rw [List.mapM_cons, List.forall₂_cons_left_iff]
    cases ha : f a with
    | error e => simp
    | ok b =>
      rw [ok_bind]
      cases has : as.mapM f with
      | error e =>
        constructor
        · intro h
          simp at h
        · rintro ⟨b', bs', -, hbs, -⟩
          rw [← ih, has] at hbs
          simp at hbs
      | ok bs' =>
        rw [ok_bind]
        constructor
        · intro h
          exact ⟨b, bs', rfl, ih.1 has, (Except.ok.inj h).symm⟩
        · rintro ⟨b', bs'', hb, hbs, rfl⟩
          rw [← ih, has] at hbs
          rw [Except.ok.inj hb, Except.ok.inj hbs]
          rfl

lemma exists_ok_iff_forall_ne_error {x : Except ε α} :
    (∃ a, x = .ok a) ↔ ∀ e, x ≠ .error e := by
  cases x <;> simp

/-- A list runs to some end exactly if each of its elements does. -/
lemma exists_mapM_eq_ok_iff {f : α → Except ε β} {as : List α} :
    (∃ bs, as.mapM f = .ok bs) ↔ ∀ a ∈ as, ∃ b, f a = .ok b := by
  simp only [mapM_eq_ok_iff, exists_forall₂_iff]

/-- A list fails as the first of its elements that does. -/
lemma mapM_eq_error_iff {f : α → Except ε β} {as : List α} {e : ε} :
    as.mapM f = .error e ↔
      ∃ before a after, as = before ++ a :: after ∧ (∀ x ∈ before, ∃ b, f x = .ok b) ∧
        f a = .error e := by
  induction as with
  | nil =>
    constructor
    · intro h
      cases h
    · rintro ⟨before, a, after, h, -⟩
      simp at h
  | cons a as ih =>
    rw [List.mapM_cons]
    cases ha : f a with
    | error e' =>
      rw [error_bind]
      constructor
      · intro h
        exact ⟨[], a, as, rfl, by simp, by rw [ha, Except.error.inj h]⟩
      · rintro ⟨before, a', after, h, hbefore, he⟩
        cases before with
        | nil =>
          obtain ⟨rfl, rfl⟩ := List.cons.inj h
          rw [ha] at he
          rw [Except.error.inj he]
        | cons x before =>
          obtain ⟨rfl, -⟩ := List.cons.inj h
          obtain ⟨b, hb⟩ := hbefore a List.mem_cons_self
          rw [ha] at hb
          cases hb
    | ok b =>
      have hrest : ((as.mapM f) >>= fun bs => pure (b :: bs)) = .error e ↔
          as.mapM f = .error e := by
        cases as.mapM f <;> simp [pure, Except.pure]
      rw [ok_bind, hrest, ih]
      constructor
      · rintro ⟨before, a', after, rfl, hbefore, he⟩
        exact ⟨a :: before, a', after, rfl, List.forall_mem_cons.2 ⟨⟨b, ha⟩, hbefore⟩, he⟩
      · rintro ⟨before, a', after, h, hbefore, he⟩
        cases before with
        | nil =>
          obtain ⟨rfl, -⟩ := List.cons.inj h
          rw [ha] at he
          cases he
        | cons x before =>
          obtain ⟨-, rfl⟩ := List.cons.inj h
          exact ⟨before, a', after, rfl, (List.forall_mem_cons.1 hbefore).2, he⟩

lemma mapM_eq_error_iff_getElem? {f : α → Except ε β} {as : List α} {e : ε} :
    as.mapM f = .error e ↔
      ∃ i a, as[i]? = some a ∧ (∀ x ∈ as.take i, ∃ b, f x = .ok b) ∧ f a = .error e := by
  rw [mapM_eq_error_iff]
  constructor
  · rintro ⟨before, a, after, rfl, hbefore, he⟩
    exact ⟨before.length, a, by simp, by simpa using hbefore, he⟩
  · rintro ⟨i, a, ha, hbefore, he⟩
    obtain ⟨hlt, rfl⟩ := List.getElem?_eq_some_iff.1 ha
    refine ⟨as.take i, as[i], as.drop (i + 1), ?_, hbefore, he⟩
    rw [List.getElem_cons_drop, List.take_append_drop]

/-! ### Results of logged computations -/

namespace Logged

@[simp] lemma result_fail (e : ε) : (fail e : Logged ω ε α).result = .error e := rfl

@[simp] lemma result_emit (events : List ω) : (emit events : Logged ω ε Unit).result = .ok () := rfl

@[simp] lemma result_ofExcept (x : Except ε α) : (ofExcept x : Logged ω ε α).result = x := rfl

@[simp] lemma result_mapEvents (f : ω → ω') (x : Logged ω ε α) :
    (x.mapEvents f).result = x.result := rfl

@[simp] lemma result_mapFailure (f : ε → ε') (x : Logged ω ε α) :
    (x.mapFailure f).result = x.result.mapError f := rfl

lemma result_traverse (f : α → Logged ω ε β) (as : List α) :
    (traverse f as).result = as.mapM fun a => (f a).result := by
  induction as with
  | nil => rfl
  | cons a as ih =>
    rw [traverse_cons, result_bind, List.mapM_cons]
    simp only [result_bind, ih, result_pure]
    rfl

/-- A list that runs to its end logs what its elements log, one after the other. -/
lemma log_traverse_of_ok {f : α → Logged ω ε β} {as : List α} {bs : List β}
    (h : (traverse f as).result = .ok bs) :
    (traverse f as).log = as.flatMap fun a => (f a).log := by
  induction as generalizing bs with
  | nil => rfl
  | cons a as ih =>
    rw [traverse_cons] at h ⊢
    rw [result_bind] at h
    cases ha : (f a).result with
    | error e =>
      rw [ha] at h
      cases h
    | ok b =>
      rw [ha, ok_bind, result_bind] at h
      cases has : (traverse f as).result with
      | error e =>
        rw [has] at h
        cases h
      | ok bs =>
        rw [log_bind_of_ok ha, log_bind_of_ok has, log_pure, List.append_nil, ih has,
          List.flatMap_cons]

lemma log_traverse_cons_of_error {f : α → Logged ω ε β} {a : α} {e : ε}
    (h : (f a).result = .error e) (as : List α) : (traverse f (a :: as)).log = (f a).log := by
  rw [traverse_cons, log_bind_of_error h]

end Logged

end TruthTables
