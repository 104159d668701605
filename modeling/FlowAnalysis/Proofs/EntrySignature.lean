import FlowAnalysis.Proofs.Codes
import FlowAnalysis.Proofs.Members

/-!
# The signature of the entry method

A caller gives the entry method one payload, so no more than one of its parameters may be mandatory:
written without `?`, without a default value, and no rest parameter.  What is counted are the
parameters without `?`, and a generator function as the value of a field is not seen to be a
function; apart from these two cases the check of the entry method accepts the classes whose first
member with the name can be called with a payload alone.

## Main definitions

* `Syntax.Tree.isMandatory` — the parameters that a caller has to supply.
* `FlowClass.function?` — the function of the first member of instances with a name.
* `FlowClass.TakesPayload` — an entry method that can be called with a payload alone.

## Main results

* `FlowClass.parameters_method?` — the method with a name has the parameters of that function.
* `Flow.length_checkEntryMethod`, `Flow.checkEntryMethod_eq_nil_iff` — at most one report, and when
  there is none.
* `Analyzer.entryMethod_reports_of_validate` — **the reports on the entry method, and when they
  judge what a caller has to supply.**
-/

namespace FlowAnalysis

open Syntax

/-! ### Parameters and functions -/

/-- Whether a parameter has to be supplied: it is written without `?`, has no default value and is
no rest parameter.  The only parameter of an arrow function without parentheses has to be. -/
def Syntax.Tree.isMandatory (p : Tree) : Bool :=
  p.isAny [.requiredParameter, .identifier] && (p.field? .value).isNone &&
    !(p.field? .pattern).any (·.is .restPattern)

theorem Syntax.Tree.isRequired_of_isMandatory {p : Tree} (h : p.isMandatory) :
    Flow.isRequired p := by
  simp only [isMandatory, Bool.and_eq_true] at h
  exact h.1.1

/-- Fewer parameters have to be supplied than are written without `?`. -/
theorem Syntax.Tree.countP_isMandatory_le (ps : List Tree) :
    ps.countP isMandatory ≤ ps.countP Flow.isRequired :=
  List.countP_mono_left fun _ _ => isRequired_of_isMandatory

/-- The function that a member of a class is: a method itself, or the function that is the value of
a field. -/
def Flow.memberFunction? (t : Tree) : Option Tree :=
  if t.is .methodDefinition then some t
  else if t.is .fieldDefinition then
    ((t.field? .value).map Tree.bare).filter
      (·.isAny [.arrowFunction, .functionExpression, .generatorFunction])
  else none

/-- Whether a member of a class belongs to its instances and has a name. -/
def Flow.isInstanceNamed (s : Source) (name : String) (t : Tree) : Bool :=
  (t.field? .name).any (memberName s · = name) && !isStatic t

/-- Whether the value of a field is a generator function. -/
def Flow.holdsGenerator (t : Tree) : Bool :=
  ((t.field? .value).map Tree.bare).any (·.is .generatorFunction)

namespace FlowClass

variable (s : Source) (c : FlowClass) (name : String)

/-- The members of a class in their order. -/
def members : List Tree := ((c.node.field? .body).map Tree.named).getD []

/-- The members of instances with a name. -/
def membersNamed : List Tree := c.members.filter (Flow.isInstanceNamed s name)

/-- The function of the first member of instances that has a name and is a function. -/
def function? : Option Tree := (c.membersNamed s name).findSome? Flow.memberFunction?

/-- There is a member of instances with a name that is a function, and the first one has at most one
mandatory parameter. -/
def TakesPayload : Prop :=
  ∃ g, c.function? s name = some g ∧ (Flow.parametersOf g).countP Tree.isMandatory ≤ 1

end FlowClass

/-! ### The method with a name -/

namespace Flow

variable {s : Source} {t : Tree} {name : String}

/-- A member of instances that has a name and holds no generator function is a method if it is a
function. -/
theorem filter_methodOf? (hname : isInstanceNamed s name t)
    (hplain : holdsGenerator t = false) :
    (methodOf? s t).filter (fun m => m.name = name && !m.isStatic) =
        (memberFunction? t).map fun g => ⟨name, t, parametersOf g, g.field? .body, false⟩ := by
  simp only [isInstanceNamed, Bool.and_eq_true, Bool.not_eq_true'] at hname
  obtain ⟨hname, hstatic⟩ := hname
  obtain ⟨n, hn, hname⟩ := (Option.any_eq_true _ _).1 hname
  have hname := of_decide_eq_true hname
  simp only [methodOf?, memberFunction?, hn, Option.bind_some, hname, hstatic]
  split
  · simp
  · split
    · unfold functionValue?
      unfold holdsGenerator at hplain
      cases hv : (t.field? .value).map Tree.bare with
      | none => rfl
      | some v =>
        rw [hv, Option.any_some] at hplain
        have hkinds : v.isAny [.arrowFunction, .functionExpression, .generatorFunction] =
            v.isAny [.arrowFunction, .functionExpression] := by
          simp [Tree.isAny, hplain]
        cases hf : v.isAny [.arrowFunction, .functionExpression] <;>
          simp [Option.filter, hkinds, hf]
    · rfl

/-- A member with another name, or of the class itself, is no method of instances with the name. -/
theorem filter_methodOf?_eq_none (hname : isInstanceNamed s name t = false) :
    (methodOf? s t).filter (fun m => m.name = name && !m.isStatic) = none := by
  rw [Option.filter_eq_none_iff]
  intro m hm hmethod
  simp only [Bool.and_eq_true, decide_eq_true_eq, Bool.not_eq_true'] at hmethod
  obtain ⟨n, hn, hm⟩ := Option.bind_eq_some_iff.1 hm
  have hother : ¬(memberName s n = name ∧ isStatic t = false) := by
    rintro ⟨hsame, hinstance⟩
    simp [isInstanceNamed, hn, hsame, hinstance] at hname
  split at hm
  · obtain rfl := Option.some.inj hm
    exact hother hmethod
  · split at hm
    · obtain ⟨g, -, rfl⟩ := Option.map_eq_some_iff.1 hm
      exact hother hmethod
    · simp at hm

/-- The first of the values that a step gives is what it gives for the first entry, if that is a
value to be found. -/
theorem find?_filterMap_cons {α β : Type} (f : α → Option β) (p : β → Bool) (a : α) (as : List α) :
    ((a :: as).filterMap f).find? p = ((f a).filter p).or ((as.filterMap f).find? p) := by
  cases hf : f a with
  | none => simp [hf]
  | some b => cases hp : p b <;> simp [hf, hp, Option.filter]

/-- Of members without generator functions the first method with a name has the parameters of the
first function with the name. -/
theorem map_parameters_find? (ts : List Tree)
    (hplain : ∀ t ∈ ts.filter (isInstanceNamed s name), holdsGenerator t = false) :
    ((ts.filterMap (methodOf? s)).find? fun m => m.name = name && !m.isStatic).map (·.parameters) =
      ((ts.filter (isInstanceNamed s name)).findSome? memberFunction?).map parametersOf := by
  induction ts with
  | nil => rfl
  | cons t ts ih =>
    rw [find?_filterMap_cons]
    cases hname : isInstanceNamed s name t with
    | false =>
      rw [List.filter_cons_of_neg (by simp [hname])] at hplain ⊢
      rw [filter_methodOf?_eq_none hname, Option.none_or, ih hplain]
    | true =>
      rw [List.filter_cons_of_pos hname] at hplain ⊢
      have hself := hplain t List.mem_cons_self
      have hrest := ih fun u hu => hplain u (List.mem_cons_of_mem t hu)
      rw [filter_methodOf? hname hself, List.findSome?_cons]
      cases memberFunction? t with
      | none => simpa using hrest
      | some g => rfl

end Flow

namespace FlowClass

variable {s : Source} {c : FlowClass} {name : String}

/-- **The method with a name has the parameters of the first function with the name**, if no field
with the name holds a generator function. -/
theorem parameters_method? {bases : List String} {t : Tree}
    (hc : Flow.flowClassOf? s bases t = some c)
    (hplain : ∀ t ∈ c.membersNamed s name, Flow.holdsGenerator t = false) :
    (c.method? name).map (·.parameters) = (c.function? s name).map Flow.parametersOf := by
  have hmethods := Flow.exists_members_of_flowClassOf? hc
  rw [← Flow.node_of_flowClassOf? hc] at hmethods
  rw [method?, hmethods]
  exact Flow.map_parameters_find? c.members hplain

end FlowClass

/-! ### Reports -/

namespace Flow

variable {f : Flow} {config : Config} {c : FlowClass}

/-- At most one report is made on the entry method. -/
theorem length_checkEntryMethod : (f.checkEntryMethod config c).length ≤ 1 := by
  simp only [checkEntryMethod]
  split
  · simp
  · split <;> simp

/-- No report is made if there is an entry method and at most one parameter is written without
`?`. -/
theorem checkEntryMethod_eq_nil_iff : f.checkEntryMethod config c = [] ↔
    ∃ ps, (c.method? config.entryMethod).map (·.parameters) = some ps ∧
      ps.countP isRequired ≤ 1 := by
  simp only [checkEntryMethod]
  cases c.method? config.entryMethod with
  | none => simp
  | some m =>
    simp only [Option.map_some, Option.some.injEq, exists_eq_left']
    split
    · next hseveral => simpa using hseveral
    · next hfew => simpa using hfew

end Flow

namespace Analyzer

variable {a : Analyzer} {text : String} {s : Source} {c : FlowClass}

/-- **The reports on the entry method.**  There is at most one, and none if and only if there is a
member function with the name whose parameters, one apart, are written with `?`.  So the reports
judge what a caller has to supply unless the function takes a payload alone and has several
parameters without `?` nevertheless, because some have a default or are rest parameters. -/
theorem entryMethod_reports_of_validate (hs : Source.parse text = .ok s)
    (hc : (a.flow s).flowClass? = some c)
    (hhost : ∀ r ∈ a.hostRules, r.Avoids "entry-method")
    (hplain : ∀ t ∈ c.membersNamed s a.config.entryMethod, Flow.holdsGenerator t = false) :
    let reports := (a.validate text).diagnostics.filter (·.code = "entry-method")
    reports.length ≤ 1 ∧
      (reports = [] ↔ ∃ g, c.function? s a.config.entryMethod = some g ∧
        (Flow.parametersOf g).countP Flow.isRequired ≤ 1) ∧
      ((reports = [] ↔ c.TakesPayload s a.config.entryMethod) ↔
        ∀ g, c.function? s a.config.entryMethod = some g →
          (Flow.parametersOf g).countP Tree.isMandatory ≤ 1 →
            (Flow.parametersOf g).countP Flow.isRequired ≤ 1) := by
  have hreports : (a.validate text).diagnostics.filter (·.code = "entry-method") =
      (a.flow s).checkEntryMethod a.config c := by
    rw [validate_of_parse hs, filter_entryMethod hhost hc]
  obtain ⟨bases, t, -, hclass⟩ := Flow.exists_node_of_flowClass? hc
  have hnone : (a.flow s).checkEntryMethod a.config c = [] ↔
      ∃ g, c.function? s a.config.entryMethod = some g ∧
        (Flow.parametersOf g).countP Flow.isRequired ≤ 1 := by
    rw [Flow.checkEntryMethod_eq_nil_iff, FlowClass.parameters_method? hclass hplain]
    cases c.function? s a.config.entryMethod <;> simp
  intro reports
  simp only [reports, hreports]
  refine ⟨Flow.length_checkEntryMethod, hnone, ?_⟩
  rw [hnone, FlowClass.TakesPayload]
  cases c.function? s a.config.entryMethod with
  | none => simp
  | some g =>
    have hle := Tree.countP_isMandatory_le (Flow.parametersOf g)
    simp only [Option.some.injEq, exists_eq_left', forall_eq']
    exact ⟨Iff.mpr, fun h => ⟨hle.trans, h⟩⟩

/-- A flow whose entry method takes a payload and a number with a default. -/
def retryingText : String := "class F extends B\x7bh(a,b=1)\x7b\x7d\x7d"

/-- An analysis in which classes extend `B` and flows begin in `h`. -/
def retryingAnalyzer : Analyzer where
  registry := .ofList []
  config := { Config.standard with baseClass := "B", entryMethod := "h" }

/-- A parameter with a default is counted, although no caller has to supply it. -/
theorem entryMethod_reports_of_validate_retryingText : ∃ s c,
    (Source.parse retryingText = .ok s ∧ (retryingAnalyzer.flow s).flowClass? = some c ∧
      ∀ t ∈ c.membersNamed s "h", Flow.holdsGenerator t = false) ∧
    c.TakesPayload s "h" ∧
    ((retryingAnalyzer.validate retryingText).diagnostics.filter
      (·.code = "entry-method")).length = 1 := by
  have hread : (Source.parse retryingText).toOption.any fun s =>
      (retryingAnalyzer.flow s).flowClass?.any fun c =>
        ((c.membersNamed s "h").all fun t => !Flow.holdsGenerator t) &&
          (c.function? s "h").any fun g =>
            decide ((Flow.parametersOf g).countP Tree.isMandatory = 1) &&
              decide ((Flow.parametersOf g).countP Flow.isRequired = 2) := by decide +kernel
  obtain ⟨s, hs, hread⟩ := exists_ok_of_any hread
  obtain ⟨c, hc, hread⟩ := (Option.any_eq_true _ _).1 hread
  simp only [Bool.and_eq_true, List.all_eq_true, Bool.not_eq_true'] at hread
  obtain ⟨hplain, hread⟩ := hread
  obtain ⟨g, hg, hcounts⟩ := (Option.any_eq_true _ _).1 hread
  simp only [Bool.and_eq_true, decide_eq_true_eq] at hcounts
  obtain ⟨hmandatory, hrequired⟩ := hcounts
  obtain ⟨hone, hnone, -⟩ :=
    entryMethod_reports_of_validate (a := retryingAnalyzer) hs hc (by simp [retryingAnalyzer])
      hplain
  refine ⟨s, c, ⟨hs, hc, hplain⟩, ⟨g, hg, hmandatory.le⟩, le_antisymm hone ?_⟩
  rw [Nat.one_le_iff_ne_zero, ne_eq, List.length_eq_zero_iff, hnone]
  rintro ⟨g', hg', hfew⟩
  obtain rfl := Option.some.inj (hg.symm.trans hg')
  omega

end Analyzer

end FlowAnalysis
