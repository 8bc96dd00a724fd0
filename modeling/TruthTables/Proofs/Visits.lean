import TruthTables.Proofs.Logged
import TruthTables.Proofs.Partners
import TruthTables.Proofs.Shape
import TruthTables.Proofs.Spans
import TruthTables.Row

/-!
# Visited spans

On which spans evaluation by places works when it begins with all the tokens of a formula. Main
statement: all of them are spans of the formula in which the parentheses are balanced, and the work
on them is that of evaluation.
-/

namespace TruthTables

/-- The span is one of the list, and its parentheses are balanced. -/
structure Span.IsSafe (span : Span) (ts : List Token) : Prop where
  start_le_stop : span.start ≤ span.stop
  stop_le_length : span.stop ≤ ts.length
  balanced : Balanced (span.tokens ts)

/-- A call on a safe span that is shorter than the one it is made from and part of it. -/
structure IsSafeCall (ts : List Token) (caller callee : Span) : Prop where
  isSafe : callee.IsSafe ts
  length_lt : callee.length < caller.length
  start_le : caller.start ≤ callee.start
  stop_le : callee.stop ≤ caller.stop

/-! ### Runs that keep to safe calls -/

/-- The run `x` on the span `root` does what `y` does. All its calls are safe, and they are made
from `root` or from a span on which there is a call. -/
structure Follows (ts : List Token) (root : Span) {α : Type} (x : Logged Step SpanFailure α)
    (y : Logged Cut Fault α) : Prop where
  log_eq : x.log.filterMap Step.cut? = y.log
  result_eq : x.result = y.result.mapError .fault
  isSafeCall : ∀ caller callee, .call caller callee ∈ x.log → IsSafeCall ts caller callee
  isCalled : ∀ caller callee, .call caller callee ∈ x.log →
    caller = root ∨ ∃ c, .call c caller ∈ x.log

namespace Follows

variable {ts : List Token} {root : Span} {α β : Type} {x : Logged Step SpanFailure α}
  {y : Logged Cut Fault α}

lemma pure (a : α) : Follows ts root (Pure.pure a) (Pure.pure a) :=
  ⟨rfl, rfl, by simp, by simp⟩

lemma fail (fault : Fault) :
    Follows ts root (Logged.fail (.fault fault) : Logged Step SpanFailure α) (Logged.fail fault) :=
  ⟨rfl, rfl, by simp [Logged.fail], by simp [Logged.fail]⟩

lemma cut (c : Cut) : Follows ts root (Logged.emit [.cut c]) (Logged.emit [c]) :=
  ⟨rfl, rfl, by simp [Logged.emit], by simp [Logged.emit]⟩

lemma bind {f : α → Logged Step SpanFailure β} {g : α → Logged Cut Fault β}
    (h : Follows ts root x y) (hfg : ∀ a, Follows ts root (f a) (g a)) :
    Follows ts root (x >>= f) (y >>= g) := by
  cases hy : y.result with
  | error fault =>
    have hx : x.result = .error (.fault fault) := by rw [h.result_eq, hy, mapError_error]
    refine ⟨?_, ?_, ?_, ?_⟩
    · rw [Logged.log_bind_of_error hx, Logged.log_bind_of_error hy, h.log_eq]
    · rw [Logged.result_bind, Logged.result_bind, hx, hy]
      rfl
    · rw [Logged.log_bind_of_error hx]
      exact h.isSafeCall
    · rw [Logged.log_bind_of_error hx]
      exact h.isCalled
  | ok a =>
    have hx : x.result = .ok a := by rw [h.result_eq, hy, mapError_ok]
    refine ⟨?_, ?_, ?_, ?_⟩
    · rw [Logged.log_bind_of_ok hx, Logged.log_bind_of_ok hy, List.filterMap_append, h.log_eq,
        (hfg a).log_eq]
    · rw [Logged.result_bind, Logged.result_bind, hx, hy]
      exact (hfg a).result_eq
    · intro caller callee hcall
      rw [Logged.log_bind_of_ok hx, List.mem_append] at hcall
      exact hcall.elim (h.isSafeCall caller callee) ((hfg a).isSafeCall caller callee)
    · intro caller callee hcall
      rw [Logged.log_bind_of_ok hx] at hcall ⊢
      rcases List.mem_append.1 hcall with hcall | hcall
      · exact (h.isCalled caller callee hcall).imp_right
          fun ⟨c, hc⟩ => ⟨c, List.mem_append_left _ hc⟩
      · exact ((hfg a).isCalled caller callee hcall).imp_right
          fun ⟨c, hc⟩ => ⟨c, List.mem_append_right _ hc⟩

/-- A safe call, and then a run on the span that is called. -/
lemma calling {callee : Span} {x : Logged Step SpanFailure Bool} {y : Logged Cut Fault Bool}
    (h : Follows ts callee x y) (hcall : IsSafeCall ts root callee) :
    Follows ts root (calling root callee x) y := by
  refine ⟨?_, ?_, ?_, ?_⟩
  · rw [log_calling]
    exact h.log_eq
  · rw [result_calling, h.result_eq]
  · intro caller callee' hmem
    rw [log_calling, List.mem_cons] at hmem
    rcases hmem with heq | hmem
    · obtain ⟨rfl, rfl⟩ := Step.call.inj heq
      exact hcall
    · exact h.isSafeCall caller callee' hmem
  · intro caller callee' hmem
    rw [log_calling] at hmem ⊢
    rcases List.mem_cons.1 hmem with heq | hmem
    · obtain ⟨rfl, rfl⟩ := Step.call.inj heq
      exact Or.inl rfl
    · refine Or.inr ?_
      rcases h.isCalled caller callee' hmem with rfl | ⟨c, hc⟩
      · exact ⟨root, List.mem_cons_self⟩
      · exact ⟨c, List.mem_cons_of_mem _ hc⟩

end Follows

section

variable {span : Span} {ts us inner left right : List Token} {t : Token}

namespace Span.Covers

lemma isSafe (h : span.Covers ts us) (hus : Balanced us) : span.IsSafe ts where
  start_le_stop := h.bounds.1
  stop_le_length := h.bounds.2
  balanced := h.tokens_eq.symm ▸ hus

lemma isSafeCall_inner (h : span.Covers ts (.openParen :: inner ++ [.closeParen]))
    (hinner : Balanced inner) : IsSafeCall ts span span.inner where
  isSafe := h.inner.isSafe hinner
  length_lt := h.length_lt h.inner (by
    simp only [List.length_append, List.length_cons]
    omega)
  start_le := Nat.le_succ _
  stop_le := Nat.sub_le _ _

lemma isSafeCall_before (h : span.Covers ts (left ++ t :: right)) (hleft : Balanced left) :
    IsSafeCall ts span (span.before left.length) where
  isSafe := h.before.isSafe hleft
  length_lt := h.length_lt h.before (by simp)
  start_le := Nat.le_refl _
  stop_le := by
    obtain ⟨before, after, -, rfl⟩ := h
    simp [Span.before]

lemma isSafeCall_behind (h : span.Covers ts (left ++ t :: right)) (hright : Balanced right) :
    IsSafeCall ts span (span.behind left.length) where
  isSafe := h.behind.isSafe hright
  length_lt := h.length_lt h.behind (by
    simp only [List.length_append, List.length_cons]
    omega)
  start_le := by
    simp only [Span.behind]
    omega
  stop_le := Nat.le_refl _

end Span.Covers

/-- What is looked up is followed in any case. -/
lemma follows_of_not_known {look : List Token → Option Bool} (hcovers : span.Covers ts us)
    (hnone : look us = none → Follows ts span (evaluateSpan look ts span) (evaluate look us)) :
    Follows ts span (evaluateSpan look ts span) (evaluate look us) := by
  cases hlook : look us with
  | some value =>
    rw [evaluateSpan_of_look (Span.slice?_eq_some_iff.2 hcovers) hlook, evaluate_of_look hlook]
    exact .pure value
  | none => exact hnone hlook

/-- On a balanced span, evaluation by places follows evaluation of its tokens. -/
theorem evaluateSpan_follows (look : List Token → Option Bool) (hcovers : span.Covers ts us)
    (h : Balanced us) : Follows ts span (evaluateSpan look ts span) (evaluate look us) := by
  induction us using Shape.induction generalizing span with
  | faulty us fault hs =>
    refine follows_of_not_known hcovers fun hlook => ?_
    rw [evaluateSpan_of_faulty (Span.slice?_eq_some_iff.2 hcovers) hlook hs,
      evaluate_of_faulty hlook hs]
    exact .fail fault
  | enclosed us inner hs ih =>
    refine follows_of_not_known hcovers fun hlook => ?_
    have hspan := Span.slice?_eq_some_iff.2 hcovers
    obtain ⟨rfl, hinner⟩ := (Shape.ofTokens_eq_enclosed_iff h).1 hs
    rw [evaluateSpan_of_enclosed hspan hlook hs, evaluate_of_enclosed hlook hs,
      if_neg (hcovers.stop_ne_zero (by simp))]
    exact (ih hcovers.inner hinner).calling (hcovers.isSafeCall_inner hinner)
  | joined us op left right hs ihl ihr =>
    refine follows_of_not_known hcovers fun hlook => ?_
    have hspan := Span.slice?_eq_some_iff.2 hcovers
    obtain ⟨rfl, hleft, -⟩ := (Shape.ofTokens_eq_joined_iff h).1 hs
    have hright : Balanced right := (h.right_of_append hleft).of_connective_cons
    have hcallLeft := (ihl hcovers.before hleft).calling (hcovers.isSafeCall_before hleft)
    have hcallRight := (ihr hcovers.behind hright).calling (hcovers.isSafeCall_behind hright)
    cases hop : op.isUnary with
    | true =>
      rw [evaluateSpan_of_unary hspan hlook hs hop, evaluate_of_unary hlook hs hop]
      refine (Follows.cut _).bind fun _ => ?_
      by_cases hnil : left = []
      · rw [if_neg (not_not.2 (List.length_eq_zero_iff.2 hnil)), if_neg (not_not.2 hnil)]
        exact hcallRight.bind fun _ => .pure _
      · rw [if_pos (mt List.length_eq_zero_iff.1 hnil), if_pos hnil]
        exact .fail _
    | false =>
      rw [evaluateSpan_of_binary hspan hlook hs hop, evaluate_of_binary hlook hs hop]
      refine (Follows.cut _).bind fun _ => ?_
      exact hcallLeft.bind fun _ => hcallRight.bind fun _ => .pure _

end

/-! ### Formulas -/

/-- All places of the tokens of a formula. -/
def Formula.span (f : Formula) : Span :=
  ⟨0, f.tokens.length⟩

lemma Formula.span_covers (f : Formula) : f.span.Covers f.tokens f.tokens :=
  ⟨[], [], by simp, by simp [span]⟩

namespace Header

/-- The value of a formula under a row, found by places. -/
def evaluateSpans (header : Header) (row : Row) (f : Formula) : Logged Step SpanFailure Bool :=
  evaluateSpan (header.lookup row) f.tokens f.span

/-- Evaluation of the formula begins with this span, or there is a call on it. -/
def Visits (header : Header) (row : Row) (f : Formula) (span : Span) : Prop :=
  span = f.span ∨ ∃ caller, .call caller span ∈ (header.evaluateSpans row f).log

/-- Evaluation by places has the results, failures and cuts of evaluation, so it is never called on
places that the formula does not have. It goes on from span to shorter span, and on each of them the
parentheses are balanced and the counters find what they look for. -/
theorem evaluate_visits_safe_spans (header : Header) (row : Row) (f : Formula) :
    (∃ result : Except Fault Bool,
      (header.evaluateSpans row f).result = result.mapError .fault ∧
      header.evaluate row f = ⟨(header.evaluateSpans row f).log.filterMap Step.cut?,
        result.mapError (Fault.inFormula f.source)⟩) ∧
    (∀ caller callee, .call caller callee ∈ (header.evaluateSpans row f).log →
      header.Visits row f caller ∧ IsSafeCall f.tokens caller callee) ∧
    ∀ span, header.Visits row f span →
      span.IsSafe f.tokens ∧ CountsRight (span.tokens f.tokens) := by
  have hrun : Follows f.tokens f.span (header.evaluateSpans row f)
      (TruthTables.evaluate (header.lookup row) f.tokens) :=
    evaluateSpan_follows _ f.span_covers f.balanced
  refine ⟨⟨_, hrun.result_eq, ?_⟩, ?_, ?_⟩
  · rw [evaluate, Logged.mapFailure, hrun.log_eq]
  · intro caller callee hcall
    exact ⟨hrun.isCalled caller callee hcall, hrun.isSafeCall caller callee hcall⟩
  · intro span hvisits
    have hsafe : span.IsSafe f.tokens := by
      rcases hvisits with rfl | ⟨caller, hcall⟩
      · exact f.span_covers.isSafe f.balanced
      · exact (hrun.isSafeCall caller span hcall).isSafe
    exact ⟨hsafe, hsafe.balanced.countsRight⟩

/-- One variable. -/
def spanHeader : Header :=
  ((ofTexts ["p"]).toOption).getD empty

/-- Parentheses within others, a negation, and a name that is no column. -/
def spanFormula : Formula :=
  ⟨"((p) | ! p) & q", _, rfl, by decide +kernel, by decide +kernel⟩

theorem spanFormula_visits :
    ((spanHeader.evaluateSpans [some true] spanFormula).log.filter fun step => step.cut?.isNone) =
        [.call ⟨0, 10⟩ ⟨0, 8⟩, .call ⟨0, 8⟩ ⟨1, 7⟩, .call ⟨1, 7⟩ ⟨1, 4⟩, .call ⟨1, 4⟩ ⟨2, 3⟩,
          .call ⟨1, 7⟩ ⟨5, 7⟩, .call ⟨5, 7⟩ ⟨6, 7⟩, .call ⟨0, 10⟩ ⟨9, 10⟩] ∧
      (spanHeader.evaluateSpans [some true] spanFormula).result =
        .error (.fault (.unresolved "q")) ∧
      spanHeader.Visits [some true] spanFormula ⟨1, 7⟩ ∧
      IsSafeCall spanFormula.tokens ⟨1, 7⟩ ⟨5, 7⟩ ∧
      CountsRight [.openParen, .name "p", .closeParen, .connective .or, .connective .not,
        .name "p"] := by
  obtain ⟨-, hcalls, hspans⟩ := evaluate_visits_safe_spans spanHeader [some true] spanFormula
  have hcall : .call ⟨1, 7⟩ ⟨5, 7⟩ ∈ (spanHeader.evaluateSpans [some true] spanFormula).log := by
    decide +kernel
  obtain ⟨hvisits, hsafe⟩ := hcalls _ _ hcall
  have htokens : (Span.mk 1 7).tokens spanFormula.tokens =
      [.openParen, .name "p", .closeParen, .connective .or, .connective .not, .name "p"] := by
    decide +kernel
  have hcounts := (hspans _ hvisits).2
  rw [htokens] at hcounts
  exact ⟨by decide +kernel, by decide +kernel, hvisits, hsafe, hcounts⟩

end Header

end TruthTables
