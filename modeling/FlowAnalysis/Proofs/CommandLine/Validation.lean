import FlowAnalysis.CommandLine.Run
import FlowAnalysis.Proofs.CommandLine.Collection
import FlowAnalysis.Proofs.Json.ReadBack

/-!
# Lines of a validation

Where lines are asked for, validation prints one line about each flow, in the order in which the flows
are found, and the lines say how it ends: whoever reads them as JSON finds in them how many flows have
failed, and the exit code agrees.

## Main definitions

* `CommandLine.FlowFile.passes`, `CommandLine.FlowFile.line` — whether a flow is valid, and what is
  printed about it.
* `CommandLine.lineValue?`, `CommandLine.lineVerdict?` — what a line says.
* `CommandLine.Reports` — a line that says how it stands with a flow.

## Main results

* `CommandLine.reports_line` — the line that is printed about a flow says how it stands with it.
* `CommandLine.validateFrom_json` — what validation prints from some state on.
* `CommandLine.run_validate_json` — **every flow has its line, and the lines agree with the end.**
-/

namespace FlowAnalysis

/-! ### Reports as values -/

/-- Reports have no other numbers than lines and columns. -/
theorem Diagnostic.integral_toLineJson (path : Option String) (d : Diagnostic) :
    (d.toLineJson path).integral := by
  unfold Diagnostic.toLineJson
  cases path <;> cases d.location <;> rfl

variable {errors : List Json}

theorem integral_reportEntries (ok : Bool) (path hash : Option String)
    (h : ∀ e ∈ errors, e.integral) : (Json.object (reportEntries ok path hash errors)).integral := by
  have herrors : Json.integralEntries
      (if errors.isEmpty then [] else [("errors", Json.array errors)]) := by
    split
    · rfl
    · exact Bool.and_eq_true_iff.2 ⟨Json.integralItems_iff.2 h, rfl⟩
  cases path <;> cases hash <;> exact herrors

/-- **The report of a text is one line, and an object when it is read.** -/
theorem ofText?_reportLine (ok : Bool) (path hash : Option String)
    (h : ∀ e ∈ errors, e.integral) :
    '\n' ∉ (reportLine ok path hash errors).toList ∧
      Json.ofText? (reportLine ok path hash errors) =
        some (.object (Json.rereadEntries (reportEntries ok path hash errors))) :=
  ⟨Json.newline_not_mem_compact (integral_reportEntries ok path hash h),
    Json.ofText?_compact (integral_reportEntries ok path hash h)⟩

namespace CommandLine

/-! ### What a line says -/

/-- The value of an entry of the object that a line is. -/
def lineValue? (line name : String) : Option Json := (Json.ofText? line).bind (·.get? name)

/-- Whether a line says that its flow is valid. -/
def lineVerdict? (line : String) : Option Bool :=
  match lineValue? line "ok" with
  | some (.bool ok) => some ok
  | _ => none

/-- Whether a flow is valid; one that cannot be read is not. -/
def FlowFile.passes (a : Analyzer) : FlowFile → Bool
  | (_, .ok text) => (a.validate text).valid
  | (_, .error _) => false

/-- What is printed about a flow. -/
def FlowFile.line (a : Analyzer) : FlowFile → String
  | (path, .ok text) => (a.validate text).line (some path) (some (Hash.digest text))
  | (path, .error cause) => failureLine (Failure.unreadable .flow path cause).oneLine (some path)

/-- A line that says how it stands with a flow: it is an object that names the flow, and that has
errors if the flow is not valid, and none if it is. -/
structure Reports (a : Analyzer) (f : FlowFile) (line : String) : Prop where
  newline_not_mem : '\n' ∉ line.toList
  isObject : ∃ entries, Json.ofText? line = some (.object entries)
  path : lineValue? line "source_path" = some (.string f.1)
  verdict : lineVerdict? line = some (FlowFile.passes a f)
  noErrors : FlowFile.passes a f = true → lineValue? line "errors" = none
  errors : FlowFile.passes a f = false →
    ∃ e es, lineValue? line "errors" = some (.array (e :: es))

theorem get?_reportEntries_errors (ok : Bool) (path hash : Option String) (errors : List Json) :
    Keyed.get? (reportEntries ok path hash errors) "errors" =
      if errors.isEmpty then none else some (.array errors) := by
  unfold reportEntries
  cases path <;> cases hash <;> cases errors <;> rfl

variable {look : Lookup} {a : Analyzer}

/-- A report says about a flow what it is made of. -/
theorem reports_reportLine {path : String} {content : Except FileFailure String} {ok : Bool}
    {hash : Option String} {errors : List Json} (hok : FlowFile.passes a (path, content) = ok)
    (hintegral : ∀ e ∈ errors, e.integral) (herrors : ok = errors.isEmpty) :
    Reports a (path, content) (reportLine ok (some path) hash errors) := by
  obtain ⟨hline, hread⟩ := ofText?_reportLine ok (some path) hash hintegral
  have hentry : ∀ name, lineValue? (reportLine ok (some path) hash errors) name =
      (Keyed.get? (reportEntries ok (some path) hash errors) name).map Json.reread := by
    intro name
    rw [lineValue?, hread]
    exact Json.get?_rereadEntries _ name
  refine ⟨hline, ⟨_, hread⟩, hentry "source_path", ?_, fun hpasses => ?_, fun hfails => ?_⟩
  · rw [lineVerdict?, hentry "ok", hok]
    rfl
  · rw [hentry "errors", get?_reportEntries_errors, ← herrors, ← hok, hpasses]
    rfl
  · rw [hentry "errors", get?_reportEntries_errors, ← herrors, ← hok, hfails]
    cases errors with
    | nil =>
      rw [hok, herrors] at hfails
      cases hfails
    | cons e es => exact ⟨e.reread, Json.rereadItems es, rfl⟩

/-- **What is printed about a flow says how it stands with it.** -/
theorem reports_line (a : Analyzer) (f : FlowFile) : Reports a f (FlowFile.line a f) := by
  obtain ⟨path, content⟩ := f
  cases content with
  | ok text =>
    refine reports_reportLine rfl ?_ ?_
    · simp [Diagnostic.integral_toLineJson]
    · simp [Verdict.valid]
  | error cause =>
    refine reports_reportLine rfl ?_ rfl
    intro e he
    obtain rfl := List.mem_singleton.1 he
    rfl

/-! ### The loop -/

/-- One step of validation: the flow gets its line, and if it is not valid one more has failed. -/
theorem validateFrom_json_cons (failures : Nat) (p : Printed) (f : FlowFile)
    (rest : List FlowFile) : validateFrom a true failures p (f :: rest) =
      validateFrom a true (if FlowFile.passes a f then failures else failures + 1)
        (p.addLine (FlowFile.line a f)) rest := by
  obtain ⟨path, content⟩ := f
  cases content <;> rfl

/-- **What validation prints from some state on**: a line about each flow, and how many of them have
failed together with those before. -/
theorem validateFrom_json (failures : Nat) (p : Printed) (flows : List FlowFile) :
    validateFrom a true failures p flows =
      Printed.conclude { p with
        stdout := p.stdout ++ String.join (flows.map fun f => FlowFile.line a f ++ "\n") } true
        (failures + flows.countP fun f => !FlowFile.passes a f) := by
  induction flows generalizing failures p with
  | nil =>
    show p.conclude true failures = _
    rw [List.map_nil, String.join_nil, String.append_empty, List.countP_nil, Nat.add_zero]
  | cons f rest ih =>
    rw [validateFrom_json_cons, ih, List.countP_cons, List.map_cons, String.join_cons]
    have hcount : (if FlowFile.passes a f then failures else failures + 1) +
        rest.countP (fun f => !FlowFile.passes a f) =
        failures + (rest.countP (fun f => !FlowFile.passes a f) +
          if !FlowFile.passes a f then 1 else 0) := by
      cases hpasses : FlowFile.passes a f with
      | true => rfl
      | false => exact Nat.add_right_comm failures 1 _
    rw [hcount]
    simp [Printed.addLine, String.append_assoc]

/-- What lines of flows say is how it stands with the flows. -/
theorem countP_lineVerdict? (a : Analyzer) (flows : List FlowFile) (b : Bool) :
    (flows.map (FlowFile.line a)).countP (fun line => lineVerdict? line = some b) =
      flows.countP fun f => FlowFile.passes a f = b := by
  rw [List.countP_map]
  refine List.countP_congr fun f _ => ?_
  rw [Function.comp_apply, (reports_line a f).verdict]
  simp

/-- What is said about some flows that are not valid. -/
theorem report_notValid (count : Nat) : (Failure.notValid count).report =
    "Error: " ++ toString count ++ " flow(s) failed validation\n" := by
  have hreport : (Failure.notValid count).report =
      "Error: " ++ (toString count ++ " flow(s) failed validation") ++ "" ++ "\n" := rfl
  rw [hreport]
  simp only [String.append_empty, String.append_assoc, String.reduceAppend]

/-- How validation ends if lines have been printed. -/
theorem conclude_json (p : Printed) (failures : Nat) :
    (p.conclude true failures).stdout = p.stdout ∧
      ((p.conclude true failures).exitCode = 0 ↔ failures = 0) ∧
      (failures ≠ 0 → (p.conclude true failures).exitCode = 1 ∧
        (p.conclude true failures).stderr = p.stderr ++ (Failure.notValid failures).report) := by
  by_cases hnone : failures = 0
  · have hend : p.conclude true failures = p.succeed := if_pos hnone
    rw [hend]
    exact ⟨rfl, iff_of_true rfl hnone, fun h => absurd hnone h⟩
  · have hend : p.conclude true failures = p.fail (.notValid failures) := if_neg hnone
    rw [hend]
    exact ⟨rfl, iff_of_false Nat.one_ne_zero hnone, fun _ => ⟨rfl, rfl⟩⟩

/-- **Every flow has its line, and the lines agree with the end.**  If lines are asked for, and if the
registry, the configuration and all targets are found, one line is printed about each flow, in the
order in which the flows are found, those that cannot be read included.  Validation ends with success
if and only if all lines say so, and otherwise it says how many do not. -/
theorem run_validate_json {arguments targets : List String} {inputs : Inputs}
    (hcommand : Command.ofArguments arguments = .ok (.validate inputs true targets))
    (hanalyzer : inputs.readAnalyzer look = .ok a)
    (htargets : ∀ path ∈ targets, ∃ e, look path = .ok e) :
    ∃ flows lines, collectFlows look targets = .ok flows ∧ flows.Forall₂ (Reports a) lines ∧
      (run look arguments).stdout = String.join (lines.map (· ++ "\n")) ∧
      ((run look arguments).exitCode = 0 ↔ ∀ line ∈ lines, lineVerdict? line = some true) ∧
      ((run look arguments).exitCode ≠ 0 → (run look arguments).exitCode = 1 ∧
        (run look arguments).stderr = "Error: " ++
          toString (lines.countP fun line => lineVerdict? line = some false) ++
            " flow(s) failed validation\n") := by
  obtain ⟨found, -, hflows⟩ := collectFlows_of_forall htargets
  generalize found.flatten = flows at hflows
  -- What is printed is what the loop prints from its beginning on.
  have hrun : run look arguments = Printed.conclude
      { stdout := String.join (flows.map fun f => FlowFile.line a f ++ "\n") } true
        (flows.countP fun f => !FlowFile.passes a f) := by
    have hvalidate := validateFrom_json (a := a) 0 {} flows
    rw [String.empty_append, Nat.zero_add] at hvalidate
    rw [run, hcommand]
    show (Command.validate inputs true targets).run look = _
    rw [Command.run, hanalyzer, hflows, ← hvalidate]
    rfl
  have hfailed : (flows.map (FlowFile.line a)).countP (fun line => lineVerdict? line = some false) =
      flows.countP fun f => !FlowFile.passes a f := by
    rw [countP_lineVerdict?]
    exact List.countP_congr fun f _ => by simp
  obtain ⟨hstdout, hexit, hend⟩ := conclude_json
    { stdout := String.join (flows.map fun f => FlowFile.line a f ++ "\n") }
      (flows.countP fun f => !FlowFile.passes a f)
  rw [← hrun] at hstdout hexit hend
  refine ⟨flows, flows.map (FlowFile.line a), hflows, ?_, ?_, ?_, ?_⟩
  · rw [List.forall₂_map_right_iff, List.forall₂_same]
    exact fun f _ => reports_line a f
  · rw [hstdout, List.map_map]
    rfl
  · rw [hexit, List.countP_eq_zero, List.forall_mem_map]
    refine forall₂_congr fun f _ => ?_
    rw [(reports_line a f).verdict]
    simp
  · intro hfails
    obtain ⟨hcode, hstderr⟩ := hend fun hnone => hfails (hexit.2 hnone)
    rw [hfailed, hstderr, report_notValid]
    exact ⟨hcode, String.empty_append⟩

/-- A valid flow. -/
def goodText : String := "class F extends BubbleFlow\x7bhandle()\x7b\x7d\x7d"

/-- A directory with a valid flow and one that cannot be read. -/
def mixedTree : FileTree :=
  .directory [("flows", .directory [("good.ts", .file (.ok goodText)),
    ("bad.ts", .file (.error .notText))])]

/-- One of two flows fails. -/
theorem run_validate_json_mixedTree :
    Command.ofArguments ["validate", "--json", "flows"] =
      .ok (.validate ⟨none, none⟩ true ["flows"]) ∧
    (run mixedTree.lookup ["validate", "--json", "flows"]).exitCode = 1 ∧
    (run mixedTree.lookup ["validate", "--json", "flows"]).stderr =
      "Error: 1 flow(s) failed validation\n" := by
  have hcommand : Command.ofArguments ["validate", "--json", "flows"] =
      .ok (.validate ⟨none, none⟩ true ["flows"]) := rfl
  have hanalyzer : (⟨none, none⟩ : Inputs).readAnalyzer mixedTree.lookup =
      .ok ⟨.empty, .standard, []⟩ := rfl
  have hgood : ((⟨.empty, .standard, []⟩ : Analyzer).validate goodText).valid = true := by
    decide +kernel
  have hfound : collectFlows mixedTree.lookup ["flows"] =
      .ok [("flows/bad.ts", .error .notText), ("flows/good.ts", .ok goodText)] := by
    decide +kernel
  have hlook : ∀ path ∈ ["flows"], ∃ e, mixedTree.lookup path = .ok e := by
    rw [List.forall_mem_singleton]
    exact ⟨_, rfl⟩
  obtain ⟨flows, lines, hflows, hlines, -, hexit, hend⟩ :=
    run_validate_json hcommand hanalyzer hlook
  obtain rfl := Except.ok.inj (hfound.symm.trans hflows)
  obtain _ | ⟨hbad, _ | ⟨hgoodLine, _ | _⟩⟩ := hlines
  have hfirst : lineVerdict? _ = some false := hbad.verdict
  have hsecond : lineVerdict? _ = some true := hgoodLine.verdict.trans (congrArg some hgood)
  obtain ⟨hcode, hstderr⟩ := hend fun hzero => by
    have htrue := hexit.1 hzero _ List.mem_cons_self
    rw [hfirst] at htrue
    cases htrue
  refine ⟨hcommand, hcode, hstderr.trans ?_⟩
  simp only [List.countP_cons, List.countP_nil, hfirst, hsecond]
  decide

end CommandLine

end FlowAnalysis
