import TruthTables.CommandLine.Run
import TruthTables.Proofs.CommandLine.Output
import TruthTables.Proofs.Csv.Headers

/-!
# Runs of the program

A run reads its arguments and its input, opens the output, builds the tables and writes them. Main
statement: what is written, and how the run ends, where the headers come from an input file and the
output takes every text.
-/

namespace TruthTables.CommandLine

variable {σ α β : Type} {s s' : σ}

/-! ### Computations that may fail -/

/-- What comes of a computation. -/
def outcomeOn (x : ExceptT Failure (StateM σ) α) (s : σ) : Except Failure α × σ :=
  x.run.run s

lemma outcomeOn_bind_of_ok {x : ExceptT Failure (StateM σ) α} {a : α}
    (f : α → ExceptT Failure (StateM σ) β) (h : outcomeOn x s = (.ok a, s')) :
    outcomeOn (x >>= f) s = outcomeOn (f a) s' := by
  have hx : x.run.run s = (Except.ok a, s') := h
  simp only [outcomeOn, ExceptT.run_bind, StateT.run_bind, hx]
  rfl

lemma outcomeOn_lift {y : StateM σ α} {a : α} (h : y.run s = (a, s')) :
    outcomeOn (liftM y) s = (.ok a, s') := by
  show (Except.ok <$> y).run s = _
  rw [StateT.run_map, h]
  rfl

/-! ### Runs up to the tables -/

section

variable {files : Files (StateM σ)} {depth : Nat} {environment : Option String}
  {arguments : List String} {start ready : σ} {settings : Settings} {path : String}
  {bytes : List UInt8} {headers : List (List String)} {output : Option String}
  {sink : Sink (StateM σ)} {content : σ → List UInt8}

/-- What is written to this output goes to this sink: the standard output, or a file that was
made. -/
inductive Opens (files : Files (StateM σ)) :
    Option String → σ → Sink (StateM σ) → σ → Prop where
  | stdout (s : σ) : Opens files none s files.stdout s
  | file {name : String} {s s' : σ} {sink : Sink (StateM σ)}
      (create_eq : (files.create name).run s = (.ok sink, s')) : Opens files (some name) s sink s'

/-- The run comes to the point where the tables of these headers are to be written to this sink. It
has the headers from an input file. -/
inductive Begins (files : Files (StateM σ)) (depth : Nat) (environment : Option String)
    (arguments : List String) (start : σ) (settings : Settings) (headers : List (List String))
    (sink : Sink (StateM σ)) (ready : σ) : Prop where
  | intro {expanded : List String} {path : String} {bytes : List UInt8} {s s' : σ}
      (expand_eq : outcomeOn (expand files depth arguments) start = (.ok expanded, s))
      (request : Request.read environment expanded = .build settings)
      (input : settings.input = some path)
      (read_eq : (files.read path).run s = (.content bytes, s'))
      (readHeaders_eq : Csv.readHeaders bytes = .ok headers)
      (opens : Opens files settings.output s' sink ready)

lemma outcomeOn_headers (hinput : settings.input = some path)
    (hread : (files.read path).run s = (.content bytes, s'))
    (hheaders : Csv.readHeaders bytes = .ok headers) :
    outcomeOn (CommandLine.headers files settings) s = (.ok headers, s') := by
  rw [CommandLine.headers, hinput]
  dsimp only
  rw [outcomeOn_bind_of_ok _ (outcomeOn_lift hread)]
  dsimp only
  rw [hheaders]
  rfl

lemma outcomeOn_openOutput (h : Opens files output s sink s') :
    outcomeOn (openOutput files output) s = (.ok sink, s') := by
  cases h with
  | stdout => rfl
  | file hcreate =>
    rw [openOutput, outcomeOn_bind_of_ok _ (outcomeOn_lift hcreate)]
    rfl

/-! ### Runs and reports -/

namespace Report

variable {report : Report} {verbosity : Nat}

/-- What is seen of a run that makes a report. -/
def outcome (report : Report) (verbosity : Nat) : Outcome :=
  let outcome : Outcome := match report.result with
    | .ok () => { code := 0 }
    | .error failure => .ofFailure failure
  { outcome with log := report.log, verbosity }

lemma stdout_outcome : (report.outcome verbosity).stdout = "" := by
  rw [outcome]
  cases report.result <;> rfl

lemma code_outcome :
    (report.outcome verbosity).code = if report.failure = none then 0 else 1 := by
  rw [outcome, result]
  cases report.failure <;> rfl

lemma stderr_outcome :
    (report.outcome verbosity).stderr = (report.failure.map Failure.report).getD "" := by
  rw [outcome, result]
  cases report.failure <;> rfl

end Report

/-- What is held back when the work ends is handed over, whether the work fails or not. -/
lemma outcomeOn_build (hheaders : outcomeOn (CommandLine.headers files settings) s =
      (.ok headers, s'))
    (hopens : Opens files settings.output s' sink ready) (harrives : Arrives sink content) :
    ∃ final, outcomeOn (build files settings) s =
        (.ok ((Report.ofHeaders settings.limit headers).outcome settings.verbosity), final) ∧
      content final = content ready ++
        Text.encode ((Report.ofHeaders settings.limit headers).text settings.format).toList := by
  obtain ⟨progress, s₁, hwork, htext, hlog⟩ :=
    Delivers.putTables harrives settings.limit settings.format headers {} ready
  obtain ⟨final, hflush, hcontent⟩ := workOn_flush harrives progress s₁
  refine ⟨final, ?_, ?_⟩
  · rw [build, outcomeOn_bind_of_ok _ hheaders,
      outcomeOn_bind_of_ok _ (outcomeOn_openOutput hopens),
      outcomeOn_bind_of_ok _ (outcomeOn_lift hwork), outcomeOn_bind_of_ok _ (outcomeOn_lift hflush),
      hlog]
    rfl
  · rw [hcontent, htext]
    simp [delivered, Text.encode]

/-- A run that comes to the tables writes the text of their report, and is seen to end as the report
says. -/
lemma run_of_begins
    (hbegins : Begins files depth environment arguments start settings headers sink ready)
    (harrives : Arrives sink content) :
    ∃ final, (run files depth environment arguments).run start =
        ((Report.ofHeaders settings.limit headers).outcome settings.verbosity, final) ∧
      content final = content ready ++
        Text.encode ((Report.ofHeaders settings.limit headers).text settings.format).toList := by
  obtain ⟨hexpand, hrequest, hinput, hread, hheaders, hopens⟩ := hbegins
  obtain ⟨final, hbuild, hcontent⟩ :=
    outcomeOn_build (outcomeOn_headers hinput hread hheaders) hopens harrives
  refine ⟨final, ?_, hcontent⟩
  have hanswer : outcomeOn (answer files depth environment arguments) start =
      (.ok ((Report.ofHeaders settings.limit headers).outcome settings.verbosity), final) := by
    rw [answer, outcomeOn_bind_of_ok _ hexpand, hrequest]
    exact hbuild
  have hrun : (answer files depth environment arguments).run.run start = _ := hanswer
  simp only [run, StateT.run_bind, hrun]
  rfl

end

/-! ### Machines in memory -/

namespace Machine

variable {machine made : Machine} {name : String} {path : Path}

/-- A file takes every text. -/
lemma arrives_sink (h : devices.lookup path = none) :
    Arrives (sink path) fun machine : Machine => (machine.files.lookup path).getD [] := by
  intro text machine
  have happend : machine.append path text =
      .ok (machine.put path ((machine.files.lookup path).getD [] ++ Text.encode text.toList)) := by
    rw [append, h]
  refine ⟨machine.put path ((machine.files.lookup path).getD [] ++ Text.encode text.toList), ?_, ?_⟩
  · simp only [sink, StateT.run_bind, StateT.run_get, pure_bind, happend]
    rfl
  · simp [put]

/-- The standard output takes every text. -/
lemma arrives_stdout :
    Arrives access.stdout fun machine : Machine => Text.encode machine.stdout.toList := by
  intro text machine
  refine ⟨{ machine with stdout := machine.stdout ++ text }, rfl, ?_⟩
  dsimp only
  rw [String.toList_append, Text.encode_append]

lemma opens_of_create (h : machine.create name = .ok (path, made)) :
    Opens access (some name) machine (sink path) made := by
  refine .file ?_
  simp only [access, StateT.run_bind, StateT.run_get, pure_bind, h]
  rfl

end Machine

/-! ### What is written -/

lemma report_unbuilt (entries : List String) (e : TableError) :
    (Failure.unbuilt entries e).report =
      "Error: cannot build truth table for [" ++ ", ".intercalate entries ++
        "]\n\nCaused by:\n    " ++ String.ofList (e.message.toList.flatMap fun c =>
          if c = '\n' then "\n    ".toList else [c]) ++ "\n" := by
  have hbegin : ("Error: cannot build truth table for [" : String) =
      "Error: " ++ "cannot build truth table for [" := rfl
  have hmiddle : ("]\n\nCaused by:\n    " : String) = "]" ++ ("\n\nCaused by:\n" ++ "    ") := rfl
  rw [hbegin, hmiddle, Failure.report]
  dsimp only [Failure.cause?, Failure.message, Failure.indent]
  simp only [String.append_assoc]

/-- Let a run have its headers from an input file, and let its output take every text. It writes the
tables of the longest part at the beginning of the headers in which all have tables, with an empty
line between any two: each of them is a block of lines. It succeeds exactly if there is no further
header. Otherwise it tells the entries of the first further one and the error that they make, and
with other headers behind that one the same is written and told. -/
theorem run_writes_good_part (files : Files (StateM σ)) (depth : Nat) (environment : Option String)
    (arguments : List String) (start : σ) (settings : Settings) (headers : List (List String))
    (sink : Sink (StateM σ)) (ready : σ) (content : σ → List UInt8)
    (hbegins : Begins files depth environment arguments start settings headers sink ready)
    (harrives : Arrives sink content) :
    ∃ good rest tables text outcome final,
      Report.IsGoodPart settings.limit headers good rest tables ∧
      text = "\n".intercalate (tables.map fun table => table.render settings.format) ∧
      (∀ table ∈ tables, Text.IsBlock (table.render settings.format)) ∧
      (run files depth environment arguments).run start = (outcome, final) ∧
      content final = content ready ++ Text.encode text.toList ∧ outcome.stdout = "" ∧
      (outcome.code = 0 ↔
        ∀ entries ∈ headers, ∃ table, (Table.ofTexts settings.limit entries).result = .ok table) ∧
      (rest = [] ∧ outcome.code = 0 ∧ outcome.stderr = "" ∨
        ∃ entries more e, rest = entries :: more ∧
          (Table.ofTexts settings.limit entries).result = .error e ∧ outcome.code = 1 ∧
          outcome.stderr = "Error: cannot build truth table for [" ++ ", ".intercalate entries ++
            "]\n\nCaused by:\n    " ++ String.ofList (e.message.toList.flatMap fun c =>
              if c = '\n' then "\n    ".toList else [c]) ++ "\n" ∧
          ∀ (start' ready' : σ) (more' : List (List String)) (sink' : Sink (StateM σ))
            (content' : σ → List UInt8),
            Begins files depth environment arguments start' settings (good ++ entries :: more')
              sink' ready' →
            Arrives sink' content' →
            ∃ final', (run files depth environment arguments).run start' = (outcome, final') ∧
              content' final' = content' ready' ++ Text.encode text.toList) := by
  obtain ⟨good, rest, hpart, hfailure⟩ := Report.exists_isGoodPart settings.limit headers
  obtain ⟨final, hrun, hcontent⟩ := run_of_begins hbegins harrives
  have hblocks : ∀ table ∈ (Report.ofHeaders settings.limit headers).tables,
      Text.IsBlock (table.render settings.format) := by
    obtain ⟨-, -, -, -, hheaders, -⟩ := hbegins
    exact fun table =>
      Report.isBlock_render_of_mem hpart (Csv.beginsVisibly_of_readHeaders hheaders) _
  refine ⟨good, rest, (Report.ofHeaders settings.limit headers).tables, _, _, final, hpart, rfl,
    hblocks, hrun, hcontent, Report.stdout_outcome, ?_, ?_⟩
  · rw [← Report.failure_eq_none_iff, Report.code_outcome]
    split <;> simp_all
  · rcases hfailure with ⟨hrest, hnone⟩ | ⟨entries, more, e, hrest, he, hsome⟩
    · -- all headers have tables
      refine Or.inl ⟨hrest, ?_, ?_⟩
      · rw [Report.code_outcome, if_pos hnone]
      · rw [Report.stderr_outcome, hnone, Option.map_none, Option.getD_none]
    · -- the loop was left at the first header of the rest
      refine Or.inr ⟨entries, more, e, hrest, he, ?_, ?_, ?_⟩
      · rw [Report.code_outcome, hsome, if_neg (Option.some_ne_none _)]
      · rw [Report.stderr_outcome, hsome, Option.map_some, Option.getD_some, report_unbuilt]
      · intro start' ready' more' sink' content' hbegins' harrives'
        have hsame : Report.ofHeaders settings.limit headers =
            Report.ofHeaders settings.limit (good ++ entries :: more') := by
          rw [hpart.append_eq, hrest]
          exact Report.ofHeaders_append_of_error he good more more'
        rw [hsame]
        exact run_of_begins hbegins' harrives'

/-- The machine with this text in the input file. -/
def inputMachine (text : String) : Machine :=
  .ofFiles [("in.csv", Text.encode text.toList)]

def shownArguments : List String :=
  ["-i", "in.csv"]

def shownSettings : Settings where
  input := some "in.csv"

def fileArguments : List String :=
  ["-i", "in.csv", "-o", "out.txt"]

def fileSettings : Settings where
  input := some "in.csv"
  output := some "out.txt"

def outputPath : Path :=
  workingDirectory ++ ["out.txt"]

section

variable {text : String} {headers : List (List String)}

lemma shownArguments_begins (h : Csv.readHeaders (Text.encode text.toList) = .ok headers) :
    Begins Machine.access 3 none shownArguments (inputMachine text) shownSettings headers
      Machine.access.stdout (inputMachine text) := by
  have hread : (inputMachine text).read "in.csv" = .content (Text.encode text.toList) := rfl
  exact ⟨rfl, rfl, rfl, congrArg (·, inputMachine text) hread, h, .stdout _⟩

lemma fileArguments_begins (h : Csv.readHeaders (Text.encode text.toList) = .ok headers) :
    Begins Machine.access 3 none fileArguments (inputMachine text) fileSettings headers
      (Machine.sink outputPath) ((inputMachine text).put outputPath []) := by
  have hread : (inputMachine text).read "in.csv" = .content (Text.encode text.toList) := rfl
  have hcreate : (inputMachine text).create "out.txt" =
      .ok (outputPath, (inputMachine text).put outputPath []) := rfl
  exact ⟨rfl, rfl, rfl, congrArg (·, inputMachine text) hread, h,
    Machine.opens_of_create hcreate⟩

end

/-- The third header has no table. -/
def failingText : String :=
  "p, q, p & q\nr\np, p =>\ns\n"

/-- Other headers behind the third. -/
def failingText' : String :=
  "p, q, p & q\nr\np, p =>\n(, s\nq\n"

/-- The tables of the first two headers. -/
def outputText : String :=
  "p | q | p & q\n0 | 0 | 0\n0 | 1 | 0\n1 | 0 | 0\n1 | 1 | 1\n\nr\n0\n1\n"

def goodHeaders : List (List String) :=
  [["p", "q", "p & q"], ["r"]]

def goodTables : List Table :=
  (Report.ofHeaders {} goodHeaders).tables

lemma intercalate_goodTables :
    "\n".intercalate (goodTables.map fun table => table.render .plain) = outputText := by
  decide +kernel

lemma result_failingEntries :
    (Table.ofTexts {} ["p", "p =>"]).result = .error (.malformedFormula "p =>" .missingOperand) := by
  decide +kernel

lemma goodHeaders_isGoodPart (more : List (List String)) :
    Report.IsGoodPart {} (goodHeaders ++ ["p", "p =>"] :: more) goodHeaders
      (["p", "p =>"] :: more) goodTables := by
  refine ⟨rfl, by decide +kernel, ?_⟩
  rintro _ _ ⟨⟩
  exact ⟨_, result_failingEntries⟩

/-- What is written goes to the standard output, or to the output file for either text. -/
theorem inputMachine_writes_tables :
    (∃ shown final, (run Machine.access 3 none shownArguments).run (inputMachine failingText) =
        (shown, final) ∧
      Text.encode final.stdout.toList = Text.encode outputText.toList) ∧
    ∃ outcome : Outcome, outcome.code = 1 ∧
      outcome.stderr = "Error: cannot build truth table for [p, p =>]\n\nCaused by:\n" ++
        "    malformed formula 'p =>': missing operand\n" ∧
      ∀ text ∈ [failingText, failingText'], ∃ final,
        (run Machine.access 3 none fileArguments).run (inputMachine text) = (outcome, final) ∧
          (final.files.lookup outputPath).getD [] = Text.encode outputText.toList := by
  have hheaders : Csv.readHeaders (Text.encode failingText.toList) =
      .ok (goodHeaders ++ ["p", "p =>"] :: [["s"]]) := by decide +kernel
  have hheaders' : Csv.readHeaders (Text.encode failingText'.toList) =
      .ok (goodHeaders ++ ["p", "p =>"] :: [["(", "s"], ["q"]]) := by decide +kernel
  refine ⟨?_, ?_⟩
  · -- to the standard output
    obtain ⟨_, _, _, _, shown, final, hpart, rfl, -, hrun, hcontent, -⟩ :=
      run_writes_good_part Machine.access 3 none shownArguments _ shownSettings _ _ _ _
        (shownArguments_begins hheaders) Machine.arrives_stdout
    obtain ⟨rfl, rfl, rfl⟩ := (goodHeaders_isGoodPart _).unique hpart
    have hformat : shownSettings.format = .plain := rfl
    rw [hformat, intercalate_goodTables] at hcontent
    exact ⟨shown, final, hrun, hcontent⟩
  · -- to the output file
    have harrives : Arrives (Machine.sink outputPath) fun machine : Machine =>
        (machine.files.lookup outputPath).getD [] := Machine.arrives_sink rfl
    obtain ⟨_, _, _, _, outcome, final, hpart, rfl, -, hrun, hcontent, -, -, hend⟩ :=
      run_writes_good_part Machine.access 3 none fileArguments _ fileSettings _ _ _ _
        (fileArguments_begins hheaders) harrives
    obtain ⟨rfl, rfl, rfl⟩ := (goodHeaders_isGoodPart _).unique hpart
    have hformat : fileSettings.format = .plain := rfl
    rw [hformat, intercalate_goodTables] at hcontent hend
    obtain ⟨hnone, -⟩ | ⟨_, _, _, hrest, he, hcode, hstderr, hsame⟩ := hend
    · cases hnone
    · cases hrest
      obtain rfl := Except.error.inj (result_failingEntries.symm.trans he)
      obtain ⟨final', hrun', hcontent'⟩ :=
        hsame _ _ _ _ _ (fileArguments_begins hheaders') harrives
      refine ⟨outcome, hcode, hstderr.trans (by decide +kernel), ?_⟩
      rw [List.forall_mem_cons, List.forall_mem_singleton]
      exact ⟨⟨final, hrun, hcontent⟩, ⟨final', hrun', hcontent'⟩⟩

end TruthTables.CommandLine
