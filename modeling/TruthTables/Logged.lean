/-!
# Logged computations

A computation that may fail and that keeps a log. What was logged before a failure stays logged.
-/

namespace TruthTables

structure Logged (ω ε α : Type) where
  log : List ω
  result : Except ε α

namespace Logged

variable {ω ω' ε ε' α β : Type}

/-- The second computation follows the first, if that one has a result. -/
def andThen (x : Logged ω ε α) (f : α → Logged ω ε β) : Logged ω ε β :=
  match x.result with
  | .ok a => ⟨x.log ++ (f a).log, (f a).result⟩
  | .error e => ⟨x.log, .error e⟩

instance : Monad (Logged ω ε) where
  pure a := ⟨[], .ok a⟩
  bind := andThen

/-- Fails and logs nothing. -/
def fail (e : ε) : Logged ω ε α :=
  ⟨[], .error e⟩

/-- Logs some events. -/
def emit (events : List ω) : Logged ω ε Unit :=
  ⟨events, .ok ()⟩

/-- A result or failure that nothing was logged for. -/
def ofExcept (result : Except ε α) : Logged ω ε α :=
  ⟨[], result⟩

def mapEvents (f : ω → ω') (x : Logged ω ε α) : Logged ω' ε α :=
  ⟨x.log.map f, x.result⟩

def mapFailure (f : ε → ε') (x : Logged ω ε α) : Logged ω ε' α :=
  ⟨x.log, x.result.mapError f⟩

/-! ### Results and logs of compound computations -/

@[simp] theorem result_pure (a : α) : (pure a : Logged ω ε α).result = .ok a := rfl

@[simp] theorem log_pure (a : α) : (pure a : Logged ω ε α).log = [] := rfl

@[simp] theorem result_bind (x : Logged ω ε α) (f : α → Logged ω ε β) :
    (x >>= f).result = x.result >>= fun a => (f a).result := by
  show (andThen x f).result = _
  cases h : x.result <;> simp [andThen, h, bind, Except.bind]

theorem log_bind_of_ok {x : Logged ω ε α} {a : α} (h : x.result = .ok a)
    (f : α → Logged ω ε β) : (x >>= f).log = x.log ++ (f a).log := by
  show (andThen x f).log = _
  simp [andThen, h]

theorem log_bind_of_error {x : Logged ω ε α} {e : ε} (h : x.result = .error e)
    (f : α → Logged ω ε β) : (x >>= f).log = x.log := by
  show (andThen x f).log = _
  simp [andThen, h]

/-! ### Running over a list -/

/-- Runs `f` on the elements of a list one after the other, up to the first failure, behind the
events `past` and the results `done`, both with the latest first. -/
def traverseFrom (f : α → Logged ω ε β) (past : List ω) (done : List β) :
    List α → Logged ω ε (List β)
  | [] => ⟨past.reverse, .ok done.reverse⟩
  | a :: as =>
    let x := f a
    match x.result with
    | .ok b => traverseFrom f (x.log.reverse ++ past) (b :: done) as
    | .error e => ⟨(x.log.reverse ++ past).reverse, .error e⟩

/-- Runs `f` on the elements of a list one after the other, up to the first failure. -/
def traverse (f : α → Logged ω ε β) (as : List α) : Logged ω ε (List β) :=
  traverseFrom f [] [] as

theorem traverseFrom_eq (f : α → Logged ω ε β) (past : List ω) (done : List β) (as : List α) :
    traverseFrom f past done as =
      ⟨past.reverse ++ (traverse f as).log,
        (traverse f as).result.map fun bs => done.reverse ++ bs⟩ := by
  induction as generalizing past done with
  | nil => simp [traverse, traverseFrom, Except.map]
  | cons a as ih =>
    cases h : (f a).result with
    | ok b =>
      simp only [traverse, traverseFrom, h]
      rw [ih, ih]
      cases (traverse f as).result <;> simp [Except.map]
    | error e => simp [traverse, traverseFrom, h, Except.map]


theorem traverse_cons (f : α → Logged ω ε β) (a : α) (as : List α) :
    traverse f (a :: as) = f a >>= fun b => traverse f as >>= fun bs => pure (b :: bs) := by
  show traverseFrom f [] [] (a :: as) = andThen (f a) fun b => andThen (traverse f as) _
  cases h : (f a).result with
  | ok b =>
    simp only [traverseFrom, h, traverseFrom_eq, andThen]
    cases (traverse f as).result <;> simp [Except.map, pure]
  | error e => simp [traverseFrom, h, andThen]

end Logged

end TruthTables
