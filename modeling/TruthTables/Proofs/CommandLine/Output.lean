import TruthTables.CommandLine.Output
import TruthTables.Proofs.CommandLine.Report
import TruthTables.Proofs.Utf8

/-!
# Output, continued

What becomes of the tables that are written one after the other, to a sink that takes every text.
Main statement: however much is held back at which time, what was handed over and what is held back
is the text of the tables that a report consists of.
-/

namespace TruthTables.CommandLine

variable {σ α β : Type}

/-! ### Sinks -/

/-- The sink takes every text, whatever the state is, and puts it behind the content. -/
def Arrives (sink : Sink (StateM σ)) (content : σ → List UInt8) : Prop :=
  ∀ text s, ∃ s', (sink text).run s = (.ok (), s') ∧
    content s' = content s ++ Text.encode text.toList

/-! ### Work -/

/-- What comes of some work. -/
def workOn (x : Work (StateM σ) α) (progress : Progress) (s : σ) :
    (Except Failure α × Progress) × σ :=
  (x.run.run progress).run s

section

variable {x : Work (StateM σ) α} {progress progress' : Progress} {s s' : σ}

lemma workOn_bind_of_ok {a : α} (f : α → Work (StateM σ) β)
    (h : workOn x progress s = ((.ok a, progress'), s')) :
    workOn (x >>= f) progress s = workOn (f a) progress' s' := by
  have hx : (x.run.run progress).run s = ((Except.ok a, progress'), s') := h
  simp only [workOn, ExceptT.run_bind, StateT.run_bind, hx]
  rfl

lemma workOn_bind_of_error {failure : Failure} (f : α → Work (StateM σ) β)
    (h : workOn x progress s = ((.error failure, progress'), s')) :
    workOn (x >>= f) progress s = ((.error failure, progress'), s') := by
  have hx : (x.run.run progress).run s = ((Except.error failure, progress'), s') := h
  simp only [workOn, ExceptT.run_bind, StateT.run_bind, hx]
  rfl

lemma workOn_lift {y : StateM σ α} {a : α} (h : y.run s = (a, s')) :
    workOn (liftM y) progress s = ((.ok a, progress), s') := by
  show ((fun p => (Except.ok p.1, p.2)) <$> ((·, progress) <$> y)).run s = _
  rw [StateT.run_map, StateT.run_map, h]
  rfl

lemma workOn_get :
    workOn (get : Work (StateM σ) Progress) progress s = ((.ok progress, progress), s) := rfl

lemma workOn_modify (f : Progress → Progress) :
    workOn (modify f : Work (StateM σ) Unit) progress s = ((.ok (), f progress), s) := rfl

end

/-- What was handed over, and behind it what is held back. -/
def delivered (content : σ → List UInt8) (progress : Progress) (s : σ) : List UInt8 :=
  content s ++ Text.encode progress.held.toList

/-- Whatever there was before, the work has this result, and it writes this text and logs these
events. -/
def Delivers (content : σ → List UInt8) (x : Work (StateM σ) α) (result : Except Failure α)
    (text : String) (log : List Event) : Prop :=
  ∀ progress s, ∃ progress' s', workOn x progress s = ((result, progress'), s') ∧
    delivered content progress' s' = delivered content progress s ++ Text.encode text.toList ∧
    progress'.log = progress.log ++ log

namespace Delivers

variable {content : σ → List UInt8} {x : Work (StateM σ) α} {f : α → Work (StateM σ) β}
  {result : Except Failure β} {text text' : String} {log log' : List Event} {a : α}
  {failure : Failure}

lemma pure (a : α) :
    Delivers content (Pure.pure a : Work (StateM σ) α) (.ok a) "" [] := by
  intro progress s
  exact ⟨progress, s, rfl, by simp [Text.encode], by simp⟩

lemma of_eq {x : Work (StateM σ) β} (h : Delivers content x result text log)
    (htext : text = text') (hlog : log = log') : Delivers content x result text' log' :=
  htext ▸ hlog ▸ h

lemma bind_of_ok (hx : Delivers content x (.ok a) text log)
    (hf : Delivers content (f a) result text' log') :
    Delivers content (x >>= f) result (text ++ text') (log ++ log') := by
  intro progress s
  obtain ⟨progress₁, s₁, hrun₁, htext₁, hlog₁⟩ := hx progress s
  obtain ⟨progress₂, s₂, hrun₂, htext₂, hlog₂⟩ := hf progress₁ s₁
  refine ⟨progress₂, s₂, ?_, ?_, ?_⟩
  · rw [workOn_bind_of_ok f hrun₁, hrun₂]
  · rw [htext₂, htext₁, String.toList_append, Text.encode_append, List.append_assoc]
  · rw [hlog₂, hlog₁, List.append_assoc]

lemma bind_of_error (hx : Delivers content x (.error failure) text log) :
    Delivers content (x >>= f) (.error failure) text log := by
  intro progress s
  obtain ⟨progress', s', hrun, htext, hlog⟩ := hx progress s
  exact ⟨progress', s', workOn_bind_of_error f hrun, htext, hlog⟩

end Delivers

/-! ### Writing -/

section

variable {sink : Sink (StateM σ)} {content : σ → List UInt8}

/-- Everything is handed over, and what was logged stays. -/
lemma workOn_flush (harrives : Arrives sink content) (progress : Progress) (s : σ) :
    ∃ s', workOn (flush sink) progress s = ((.ok (), { progress with held := "" }), s') ∧
      content s' = delivered content progress s := by
  rw [flush, workOn_bind_of_ok _ workOn_get]
  by_cases hheld : progress.held = ""
  · -- nothing is held back
    refine ⟨s, ?_, ?_⟩
    · rw [if_neg (not_not.2 hheld), ← hheld]
      rfl
    · rw [delivered, hheld]
      simp [Text.encode]
  · -- the sink takes what is held back
    obtain ⟨s', hrun, hcontent⟩ := harrives progress.held s
    refine ⟨s', ?_, hcontent⟩
    rw [if_pos hheld, workOn_bind_of_ok _ (workOn_lift hrun)]
    rfl

lemma Delivers.flush (harrives : Arrives sink content) :
    Delivers content (flush sink) (.ok ()) "" [] := by
  intro progress s
  obtain ⟨s', hrun, hcontent⟩ := workOn_flush harrives progress s
  refine ⟨_, s', hrun, ?_, (List.append_nil _).symm⟩
  rw [delivered, hcontent]

/-- A text that is written is held back or handed over, behind what was written before. -/
lemma Delivers.put (harrives : Arrives sink content) (text : String) :
    Delivers content (put sink text) (.ok ()) text [] := by
  intro progress s
  let longer : Progress := { progress with held := progress.held ++ text }
  have hlonger : delivered content longer s =
      delivered content progress s ++ Text.encode text.toList := by
    rw [delivered, delivered, String.toList_append, Text.encode_append, List.append_assoc]
  rw [CommandLine.put, workOn_bind_of_ok _ (workOn_modify _), workOn_bind_of_ok _ workOn_get]
  by_cases hmuch : heldBytes < longer.held.utf8ByteSize
  · -- all of it is handed over
    obtain ⟨progress', s', hrun, htext, hlog⟩ := Delivers.flush harrives longer s
    rw [if_pos hmuch]
    refine ⟨progress', s', hrun, ?_, hlog⟩
    rw [htext, hlonger]
    simp [Text.encode]
  · -- it is held back
    rw [if_neg hmuch]
    exact ⟨longer, s, rfl, hlonger, (List.append_nil _).symm⟩

/-! ### Tables -/

variable {limit : Limit} {format : Format} {entries : List String} {table : Table} {e : TableError}

lemma Delivers.buildTable (limit : Limit) (entries : List String) :
    Delivers content (buildTable limit entries)
      ((Table.ofTexts limit entries).result.mapError (.unbuilt entries)) ""
      (Table.ofTexts limit entries).log := by
  intro progress s
  let logged : Progress :=
    { progress with log := progress.log ++ (Table.ofTexts limit entries).log }
  refine ⟨logged, s, ?_, by simp [delivered, logged, Text.encode], rfl⟩
  rw [CommandLine.buildTable, workOn_bind_of_ok _ (workOn_modify _)]
  cases (Table.ofTexts limit entries).result with
  | ok table => rfl
  | error e => rfl

lemma Delivers.putSeparator (harrives : Arrives sink content) (number : Nat) :
    Delivers content (putSeparator sink number) (.ok ()) (if 0 < number then "\n" else "") [] := by
  rw [CommandLine.putSeparator]
  split
  · exact .put harrives "\n"
  · exact .pure ()

lemma Delivers.putRendered (harrives : Arrives sink content) (format : Format) (table : Table) :
    Delivers content (putRendered sink format table) (.ok ()) (table.render format) [] := by
  have hlast : Delivers content (if format = .csv then CommandLine.flush sink else Pure.pure ())
      (.ok ()) "" [] := by
    split
    · exact .flush harrives
    · exact .pure ()
  exact ((Delivers.put harrives _).bind_of_ok hlast).of_eq String.append_empty rfl

/-- A table is written with an empty line before it, unless it is the first. -/
lemma Delivers.putTable_of_ok (harrives : Arrives sink content)
    (h : (Table.ofTexts limit entries).result = .ok table) (number : Nat) :
    Delivers content (putTable sink limit format number entries) (.ok ())
      ((if 0 < number then "\n" else "") ++ table.render format)
      (Table.ofTexts limit entries).log := by
  have hbuild : Delivers content (CommandLine.buildTable limit entries) _ _ _ :=
    .buildTable limit entries
  rw [h, mapError_ok] at hbuild
  have hwrite := (Delivers.putSeparator harrives number).bind_of_ok
    (f := fun _ => CommandLine.putRendered sink format table)
    (Delivers.putRendered harrives format table)
  exact (hbuild.bind_of_ok hwrite).of_eq String.empty_append (List.append_nil _)

/-- Of a header without a table nothing is written, not even the empty line. -/
lemma Delivers.putTable_of_error (h : (Table.ofTexts limit entries).result = .error e)
    (number : Nat) :
    Delivers content (putTable sink limit format number entries) (.error (.unbuilt entries e)) ""
      (Table.ofTexts limit entries).log := by
  have hbuild : Delivers content (CommandLine.buildTable limit entries) _ _ _ :=
    .buildTable limit entries
  rw [h, mapError_error] at hbuild
  exact hbuild.bind_of_error

/-- The texts with an empty line before each, but for one with the number zero. -/
def joined (number : Nat) : List String → String
  | [] => ""
  | text :: texts => (if 0 < number then "\n" else "") ++ text ++ joined (number + 1) texts

lemma joined_cons (number : Nat) (text : String) (texts : List String) :
    joined number (text :: texts) =
      (if 0 < number then "\n" else "") ++ "\n".intercalate (text :: texts) := by
  induction texts generalizing number text with
  | nil => rw [joined, joined, String.intercalate_singleton, String.append_empty]
  | cons text' texts ih =>
    rw [joined, ih, if_pos number.succ_pos, String.intercalate_cons_cons, String.append_assoc,
      String.append_assoc]

lemma joined_zero (texts : List String) : joined 0 texts = "\n".intercalate texts := by
  cases texts with
  | nil => rw [joined, String.intercalate_nil]
  | cons text texts => rw [joined_cons, if_neg (Nat.lt_irrefl 0), String.empty_append]

/-- The loop over the headers writes the tables of the report. The induction is on the headers, with
the number of the first one generalised, as it counts what was written before. -/
lemma Delivers.forM_putTable (harrives : Arrives sink content) (limit : Limit) (format : Format)
    (number : Nat) (headers : List (List String)) :
    Delivers content
      (forM (headers.zipIdx number) fun (entries, number) =>
        putTable sink limit format number entries)
      (Report.ofHeaders limit headers).result
      (joined number ((Report.ofHeaders limit headers).tables.map fun table => table.render format))
      (Report.ofHeaders limit headers).log := by
  induction headers generalizing number with
  | nil => exact .pure ()
  | cons entries headers ih =>
    rw [List.zipIdx_cons, List.forM_cons]
    cases hresult : (Table.ofTexts limit entries).result with
    | ok table =>
      -- the loop goes on with the next number
      rw [Report.ofHeaders_of_ok hresult]
      exact ((Delivers.putTable_of_ok harrives hresult number).bind_of_ok (ih (number + 1))).of_eq
        rfl rfl
    | error e =>
      -- the loop is left
      rw [Report.ofHeaders_of_error hresult]
      exact (Delivers.putTable_of_error hresult number).bind_of_error

/-- What is written is the text of the report, and the work ends as the report says. -/
theorem Delivers.putTables (harrives : Arrives sink content) (limit : Limit) (format : Format)
    (headers : List (List String)) :
    Delivers content (putTables sink limit format headers)
      (Report.ofHeaders limit headers).result ((Report.ofHeaders limit headers).text format)
      (Report.ofHeaders limit headers).log := by
  have hloop := Delivers.forM_putTable harrives limit format 0 headers
  rw [joined_zero] at hloop
  cases hresult : (Report.ofHeaders limit headers).result with
  | error failure =>
    -- the last flush is not reached
    rw [hresult] at hloop
    exact hloop.bind_of_error
  | ok _ =>
    rw [hresult] at hloop
    exact (hloop.bind_of_ok (.flush harrives)).of_eq String.append_empty (List.append_nil _)

end

end TruthTables.CommandLine
