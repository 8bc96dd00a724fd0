import TruthTables.Evaluation
import TruthTables.Proofs.Parentheses

/-!
# Spans

Evaluation by places in one list of tokens instead of lists that are cut out of it. It logs each
call that it makes, and it fails where it is called on places that the list does not have.
-/

namespace TruthTables

/-- The places from `start` on that come before `stop`. -/
structure Span where
  start : Nat
  stop : Nat
deriving DecidableEq, Repr

namespace Span

variable (span : Span) (ts : List Token)

def length : Nat :=
  span.stop - span.start

/-- The tokens at the places of a span. -/
def tokens : List Token :=
  (ts.take span.stop).drop span.start

/-- The tokens at the places of a span, provided that the list has these places. -/
def slice? : Option (List Token) :=
  if span.start ≤ span.stop ∧ span.stop ≤ ts.length then some (span.tokens ts) else none

/-- All places but the first one and the last one. -/
def inner : Span :=
  ⟨span.start + 1, span.stop - 1⟩

/-- The first `n` places. -/
def before (n : Nat) : Span :=
  ⟨span.start, span.start + n⟩

/-- What comes behind the first `n` places and one more. -/
def behind (n : Nat) : Span :=
  ⟨span.start + n + 1, span.stop⟩

end Span

/-! ### The tokens of a span -/

namespace Span

variable {span caller callee : Span} {ts us vs left right : List Token} {t : Token}

/-- The tokens `us` stand at the places of the span. -/
def Covers (span : Span) (ts us : List Token) : Prop :=
  ∃ before after, ts = before ++ us ++ after ∧
    span = ⟨before.length, before.length + us.length⟩

namespace Covers

lemma bounds (h : span.Covers ts us) : span.start ≤ span.stop ∧ span.stop ≤ ts.length := by
  obtain ⟨before, after, rfl, rfl⟩ := h
  simp

lemma length_eq (h : span.Covers ts us) : span.length = us.length := by
  obtain ⟨before, after, -, rfl⟩ := h
  exact Nat.add_sub_cancel_left _ _

lemma tokens_eq (h : span.Covers ts us) : span.tokens ts = us := by
  obtain ⟨before, after, rfl, rfl⟩ := h
  rw [tokens, List.take_left' (by simp), List.drop_left]

lemma inner (h : span.Covers ts (.openParen :: us ++ [.closeParen])) : span.inner.Covers ts us := by
  obtain ⟨before, after, rfl, rfl⟩ := h
  refine ⟨before ++ [.openParen], .closeParen :: after, by simp, ?_⟩
  simp only [Span.inner, List.length_append, List.length_cons, List.length_nil, Span.mk.injEq,
    true_and]
  omega

lemma before (h : span.Covers ts (left ++ t :: right)) :
    (span.before left.length).Covers ts left := by
  obtain ⟨before, after, rfl, rfl⟩ := h
  exact ⟨before, t :: right ++ after, by simp, rfl⟩

lemma behind (h : span.Covers ts (left ++ t :: right)) :
    (span.behind left.length).Covers ts right := by
  obtain ⟨before, after, rfl, rfl⟩ := h
  refine ⟨before ++ left ++ [t], after, by simp, ?_⟩
  simp only [Span.behind, List.length_append, List.length_cons, List.length_nil, Span.mk.injEq,
    true_and]
  omega

lemma stop_ne_zero (h : span.Covers ts us) (hne : us ≠ []) : span.stop ≠ 0 := by
  obtain ⟨before, after, -, rfl⟩ := h
  have hpos := List.length_pos_iff.2 hne
  simp only
  omega

/-- A part of what a span covers is shorter. -/
lemma length_lt (h : caller.Covers ts us) (h' : callee.Covers ts vs) (hlt : vs.length < us.length) :
    callee.length < caller.length := by
  rw [h.length_eq, h'.length_eq]
  exact hlt

end Covers

/-- The tokens of a span are there exactly if it is a span of the list. -/
lemma slice?_eq_some_iff : span.slice? ts = some us ↔ span.Covers ts us := by
  constructor
  · intro h
    rw [slice?, Option.ite_none_right_eq_some] at h
    obtain ⟨⟨hle, hlength⟩, htokens⟩ := h
    obtain rfl := Option.some.inj htokens
    have hstart : ((ts.take span.stop).take span.start).length = span.start := by
      rw [List.length_take, List.length_take]
      omega
    have hwidth : ((ts.take span.stop).drop span.start).length = span.stop - span.start := by
      rw [List.length_drop, List.length_take]
      omega
    refine ⟨(ts.take span.stop).take span.start, ts.drop span.stop, ?_, ?_⟩
    · rw [tokens, List.take_append_drop, List.take_append_drop]
    · rw [tokens, hstart, hwidth, Nat.add_sub_cancel' hle]
  · intro h
    rw [slice?, if_pos h.bounds, h.tokens_eq]

end Span

/-! ### Evaluation by places -/

/-- What evaluation by places does on its way. -/
inductive Step where
  /-- Working on `caller`, it calls itself on `callee`. -/
  | call (caller callee : Span)
  | cut (c : Cut)
deriving DecidableEq, Repr

def Step.cut? : Step → Option Cut
  | call .. => none
  | cut c => some c

/-- Why there is no value at the places of a span. -/
inductive SpanFailure where
  /-- There is a place before the first token or behind the last one. -/
  | outOfRange
  | fault (fault : Fault)
deriving DecidableEq, Repr

section

variable {span : Span} {ts us inner left right : List Token} {op : Connective}

lemma Span.length_inner_lt (h : span.slice? ts = some us)
    (hs : Shape.ofTokens us = .enclosed inner) : span.inner.length < span.length := by
  have hcovers := slice?_eq_some_iff.1 h
  have hus := (enclosed?_eq_some_iff.1 (Shape.enclosed?_of_ofTokens hs)).1
  exact hcovers.length_lt (hus ▸ hcovers).inner (Shape.length_lt_of_enclosed hs)

lemma Span.length_before_lt (h : span.slice? ts = some us)
    (hs : Shape.ofTokens us = .joined op left right) :
    (span.before left.length).length < span.length := by
  have hcovers := slice?_eq_some_iff.1 h
  have hus := Shape.eq_append_of_ofTokens hs
  exact hcovers.length_lt (hus ▸ hcovers).before (Shape.length_left_lt_of_joined hs)

lemma Span.length_behind_lt (h : span.slice? ts = some us)
    (hs : Shape.ofTokens us = .joined op left right) :
    (span.behind left.length).length < span.length := by
  have hcovers := slice?_eq_some_iff.1 h
  have hus := Shape.eq_append_of_ofTokens hs
  exact hcovers.length_lt (hus ▸ hcovers).behind (Shape.length_right_lt_of_joined hs)

end

/-- Logs the call that `x` is the work of. -/
def calling (caller callee : Span) (x : Logged Step SpanFailure Bool) :
    Logged Step SpanFailure Bool := do
  Logged.emit [.call caller callee]
  x

lemma log_calling (caller callee : Span) (x : Logged Step SpanFailure Bool) :
    (calling caller callee x).log = .call caller callee :: x.log := rfl

lemma result_calling (caller callee : Span) (x : Logged Step SpanFailure Bool) :
    (calling caller callee x).result = x.result := rfl

/-- The value of what stands at the places of `span` in `ts`. -/
def evaluateSpan (look : List Token → Option Bool) (ts : List Token) (span : Span) :
    Logged Step SpanFailure Bool :=
  match _hspan : span.slice? ts with
  | none => .fail .outOfRange
  | some us =>
    match look us with
    | some value => pure value
    | none =>
      match _hshape : Shape.ofTokens us with
      | .faulty fault => .fail (.fault fault)
      | .enclosed _ =>
        if span.stop = 0 then .fail .outOfRange
        else calling span span.inner (evaluateSpan look ts span.inner)
      | .joined op left _ => do
        Logged.emit [.cut ⟨us, op⟩]
        let n := left.length
        if op.isUnary then
          if n ≠ 0 then
            .fail (.fault (.defect (.leftOperand op)))
          else
            let r ← calling span (span.behind n) (evaluateSpan look ts (span.behind n))
            pure (op.apply false r)
        else
          let l ← calling span (span.before n) (evaluateSpan look ts (span.before n))
          let r ← calling span (span.behind n) (evaluateSpan look ts (span.behind n))
          pure (op.apply l r)
termination_by span.length
decreasing_by
  · exact Span.length_inner_lt _hspan _hshape
  · exact Span.length_behind_lt _hspan _hshape
  · exact Span.length_before_lt _hspan _hshape
  · exact Span.length_behind_lt _hspan _hshape

section

variable {look : List Token → Option Bool} {span : Span} {ts us inner left right : List Token}
  {op : Connective} {value : Bool} {fault : Fault}

lemma evaluateSpan_of_look (hspan : span.slice? ts = some us) (h : look us = some value) :
    evaluateSpan look ts span = pure value := by
  rw [evaluateSpan]
  split <;> simp_all

lemma evaluateSpan_of_faulty (hspan : span.slice? ts = some us) (h : look us = none)
    (hs : Shape.ofTokens us = .faulty fault) :
    evaluateSpan look ts span = .fail (.fault fault) := by
  rw [evaluateSpan]
  -- Of the slices only `us` is left, and then of the shapes only the one that `us` has.
  split <;> simp_all
  split <;> simp_all

lemma evaluateSpan_of_enclosed (hspan : span.slice? ts = some us) (h : look us = none)
    (hs : Shape.ofTokens us = .enclosed inner) :
    evaluateSpan look ts span =
      if span.stop = 0 then .fail .outOfRange
      else calling span span.inner (evaluateSpan look ts span.inner) := by
  rw [evaluateSpan]
  split <;> simp_all
  split <;> simp_all

lemma evaluateSpan_of_unary (hspan : span.slice? ts = some us) (h : look us = none)
    (hs : Shape.ofTokens us = .joined op left right) (hop : op.isUnary = true) :
    evaluateSpan look ts span =
      (Logged.emit [.cut ⟨us, op⟩] >>= fun _ =>
        if left.length ≠ 0 then .fail (.fault (.defect (.leftOperand op)))
        else
          calling span (span.behind left.length)
              (evaluateSpan look ts (span.behind left.length)) >>= fun r =>
            pure (op.apply false r)) := by
  rw [evaluateSpan]
  split <;> simp_all
  split <;> simp_all

lemma evaluateSpan_of_binary (hspan : span.slice? ts = some us) (h : look us = none)
    (hs : Shape.ofTokens us = .joined op left right) (hop : op.isUnary = false) :
    evaluateSpan look ts span =
      (Logged.emit [.cut ⟨us, op⟩] >>= fun _ =>
        calling span (span.before left.length)
            (evaluateSpan look ts (span.before left.length)) >>= fun l =>
          calling span (span.behind left.length)
              (evaluateSpan look ts (span.behind left.length)) >>= fun r =>
            pure (op.apply l r)) := by
  rw [evaluateSpan]
  split <;> simp_all
  split <;> simp_all

end

end TruthTables
