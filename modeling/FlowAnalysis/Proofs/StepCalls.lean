import FlowAnalysis.Proofs.Codes
import FlowAnalysis.Proofs.Members

/-!
# Calls between the methods of a flow

Only the entry method may call the other methods of the flow.  For each method and each other method
that it calls one report is made, at the first of the calls.  The search looks only at bodies, it
looks through a body even if that is a function or a class with a `this` of its own, and abstract
classes are not told from blocks; apart from these three cases the reports are exact.

## Main definitions

* `Flow.StepCall` — the calls of one method of instances in the code of another.
* `FlowClass.isThisPlain` — a class whose methods with a name are without the three cases.

## Main results

* `filter_firstPerKey` — of the entries with one key the first is kept.
* `Flow.mem_foundCalls`, `Flow.pairwise_foundCalls` — which calls are found, and in which order.
* `Analyzer.filter_stepCall_validate` — **for each pair of methods one report at the first call, and
  none if there is no call.**
-/

namespace FlowAnalysis

open Syntax

/-! ### Calls on the flow -/

/-- Whether `this` below a node is what it is around the node: arrow functions keep it, other
functions and classes have one of their own. -/
def Syntax.Tree.passesThis (t : Tree) : Bool := t.is .arrowFunction || !t.isScope

/-- The code of a method: the parameters with their defaults, and the body. -/
def Method.code (m : Method) : List Tree := m.parameters ++ m.body.toList

/-- Whether a class has a method of instances with a name. -/
def FlowClass.hasInstance (c : FlowClass) (name : String) : Bool :=
  (c.methods.filter (!·.isStatic)).any (·.name = name)

namespace Flow

variable (f : Flow) (config : Config) (c : FlowClass)

/-- The method of instances that a node calls on `this`, if it does so. -/
def stepCalled? (t : Tree) : Option String :=
  if t.is .callExpression then (f.calledOnThis? t).filter c.hasInstance else none

/-- A call of the method `b` in the code of a method `a` of instances, where `this` is the flow. -/
def StepCall (a b : String) (t : Tree) : Prop :=
  f.stepCalled? c t = some b ∧ ∃ m ∈ c.methods, m.isStatic = false ∧ m.name = a ∧
    ∃ part ∈ m.code, part.Reaches Tree.passesThis t

end Flow

/-- The parts of the code of a method that are not read, or not read as what they are: the
parameters, a body that has a `this` of its own, and the abstract classes in the body. -/
def Method.misreadParts (m : Method) : List Tree :=
  m.parameters ++ m.body.toList.filter (!·.passesThis) ++
    m.body.toList.flatMap fun body => body.nodes.filter (·.is .abstractClassDeclaration)

/-- Whether the methods with a name call no method of the flow in a part of their code that is
misread. -/
def FlowClass.isThisPlain (f : Flow) (c : FlowClass) (a : String) : Bool :=
  c.methods.all fun m => m.isStatic || m.name ≠ a ||
    m.misreadParts.all fun part => part.nodes.all fun t => (f.stepCalled? c t).isNone

/-! ### The first entry of each key -/

section FirstPerKey

variable {κ α : Type} [BEq κ] [LawfulBEq κ] [DecidableEq κ]

/-- Adding entries one by one: a key that is there already stays with its entries, another one gets
its first entry. -/
theorem filter_foldl_firstPerKey (k : κ) (es acc : List (κ × α)) :
    (es.foldl (fun acc e => if acc.any (·.1 == e.1) then acc else acc ++ [e]) acc).filter
        (·.1 = k) =
      if acc.any (·.1 = k) then acc.filter (·.1 = k) else (es.filter (·.1 = k)).take 1 := by
  induction es generalizing acc with
  | nil =>
    simp only [List.foldl_nil, List.filter_nil, List.take_nil]
    split
    · rfl
    · next hnone =>
      rw [List.filter_eq_nil_iff]
      exact fun e he heq => hnone (List.any_eq_true.2 ⟨e, he, heq⟩)
  | cons e es ih =>
    rw [List.foldl_cons, ih]
    by_cases hk : e.1 = k
    · subst hk
      cases hany : acc.any (·.1 == e.1) with
      | true =>
        have hany' : acc.any (·.1 = e.1) = true := by simpa using hany
        simp only [if_true, hany']
      | false =>
        have hany' : acc.any (·.1 = e.1) = false := by simpa using hany
        have hnil : acc.filter (·.1 = e.1) = [] := by
          rw [List.filter_eq_nil_iff]
          exact fun x hx heq => by simpa using (List.any_eq_false.1 hany') x hx heq
        simp [hany', hnil]
    · have hfilter : ((e :: es).filter (·.1 = k)).take 1 = (es.filter (·.1 = k)).take 1 := by
        rw [List.filter_cons_of_neg (by simpa using hk)]
      rw [hfilter]
      cases acc.any (·.1 == e.1) with
      | true => simp only [if_true]
      | false =>
        have hany : (acc ++ [e]).any (·.1 = k) = acc.any (·.1 = k) := by
          rw [List.any_append]
          simp [hk]
        have hacc : (acc ++ [e]).filter (·.1 = k) = acc.filter (·.1 = k) := by
          rw [List.filter_append]
          simp [hk]
        simp only [Bool.false_eq_true, if_false, hany, hacc]

/-- **Of the entries with one key the first is kept.** -/
theorem filter_firstPerKey (k : κ) (es : List (κ × α)) :
    (Flow.firstPerKey es).filter (·.1 = k) = (es.filter (·.1 = k)).take 1 := by
  rw [Flow.firstPerKey, filter_foldl_firstPerKey]
  simp

omit [LawfulBEq κ] [DecidableEq κ] in
/-- The entries that are kept stand in their order. -/
theorem firstPerKey_sublist (es : List (κ × α)) : (Flow.firstPerKey es).Sublist es := by
  -- Entries are added at the end of those that were kept before.
  suffices hfold : ∀ acc : List (κ × α), (es.foldl
      (fun acc e => if acc.any (·.1 == e.1) then acc else acc ++ [e]) acc).Sublist (acc ++ es) by
    exact hfold []
  induction es with
  | nil => exact fun acc => by rw [List.append_nil]; exact .refl acc
  | cons e es ih =>
    intro acc
    rw [List.foldl_cons]
    refine (ih _).trans ?_
    split
    · exact (List.sublist_cons_self e es).append_left acc
    · rw [List.append_assoc]
      exact .refl _

end FirstPerKey

namespace Flow

variable {f : Flow} {config : Config} {c : FlowClass} {m : Method} {s : Source} {a b : String}
  {t : Tree}

/-! ### The calls that are found -/

/-- The calls that are found in the body of a method, each with the names of both methods. -/
def foundIn (f : Flow) (c : FlowClass) (m : Method) : List ((String × String) × Tree) :=
  ((m.body.map f.stepCalls).getD []).filterMap fun (callee, t) =>
    if c.hasInstance callee then some ((m.name, callee), t) else none

/-- The calls that are found in a class. -/
def foundCalls (f : Flow) (config : Config) (c : FlowClass) : List ((String × String) × Tree) :=
  ((c.methods.filter (!·.isStatic)).filter (·.name ≠ config.entryMethod)).flatMap (f.foundIn c)

theorem checkStepCalls_eq : f.checkStepCalls config c =
    (firstPerKey (f.foundCalls config c)).map fun x =>
      f.diagnosticAt x.2 (.stepCall x.1.1 x.1.2 config.entryMethod) := rfl

theorem is_callExpression_of_stepCalled? (h : f.stepCalled? c t = some b) :
    t.is .callExpression := by
  unfold stepCalled? at h
  split at h
  · assumption
  · simp at h

theorem mem_foundIn : ((a, b), t) ∈ f.foundIn c m ↔ m.name = a ∧ f.stepCalled? c t = some b ∧
    ∃ body, m.body = some body ∧ t ∈ body.walkBelow (Tree.except rebindsThis) := by
  rw [foundIn]
  cases hbody : m.body with
  | none => simp
  | some body =>
    simp only [Option.map_some, Option.getD_some, List.mem_filterMap, stepCalls, List.mem_filter,
      Option.some.injEq, exists_eq_left', stepCalled?]
    constructor
    · rintro ⟨⟨callee, u⟩, ⟨v, ⟨hv, hcall⟩, hu⟩, h⟩
      obtain ⟨callee', hcallee, hpair⟩ := Option.map_eq_some_iff.1 hu
      obtain ⟨rfl, rfl⟩ := Prod.mk.inj hpair
      split at h
      · next hinstance =>
        obtain ⟨hnames, rfl⟩ := Prod.mk.inj (Option.some.inj h)
        obtain ⟨hname, rfl⟩ := Prod.mk.inj hnames
        refine ⟨hname, ?_, hv⟩
        rw [if_pos hcall, hcallee, Option.filter_some, if_pos hinstance]
      · simp at h
    · rintro ⟨hname, hcalled, ht⟩
      split at hcalled
      · next hcall =>
        obtain ⟨hcallee, hinstance⟩ := Option.filter_eq_some_iff.1 hcalled
        refine ⟨(b, t), ⟨t, ⟨ht, hcall⟩, by rw [hcallee]; rfl⟩, ?_⟩
        simp only [hinstance, if_true, hname]
      · simp at hcalled

/-- **Which calls are found**: those in the bodies of the methods of instances, the entry method
left out, that a walk comes to which looks through everything but functions that are no arrow
functions and classes that are not abstract. -/
theorem mem_foundCalls : ((a, b), t) ∈ f.foundCalls config c ↔ a ≠ config.entryMethod ∧
    f.stepCalled? c t = some b ∧ ∃ m ∈ c.methods, m.isStatic = false ∧ m.name = a ∧
      ∃ body, m.body = some body ∧ t ∈ body.walkBelow (Tree.except rebindsThis) := by
  simp only [foundCalls, List.mem_flatMap, List.mem_filter, mem_foundIn, Bool.not_eq_true',
    decide_eq_true_eq]
  constructor
  · rintro ⟨m, ⟨⟨hm, hstatic⟩, hentry⟩, rfl, hcalled, hbody⟩
    exact ⟨hentry, hcalled, m, hm, hstatic, rfl, hbody⟩
  · rintro ⟨hentry, hcalled, m, hm, hstatic, rfl, hbody⟩
    exact ⟨m, ⟨⟨hm, hstatic⟩, hentry⟩, rfl, hcalled, hbody⟩

/-- What is found in a method stands between the ends of the method. -/
theorem bounds_of_mem_foundIn {registry : Registry}
    (hlaid : LaidFrom s.root.start s.root.children s.root.stop)
    (hc : (Flow.of s registry config).flowClass? = some c) (hm : m ∈ c.methods)
    {x : (String × String) × Tree} (hx : x ∈ f.foundIn c m) :
    m.node.start ≤ x.2.start ∧ x.2.start ≤ x.2.stop ∧ x.2.stop ≤ m.node.stop := by
  obtain ⟨-, -, body, hbody, ht⟩ := mem_foundIn.1 hx
  obtain ⟨u, hu, hmember⟩ := exists_member_of_mem_methods hc hm
  rw [(exists_function_of_methodOf? hmember).1]
  have hbelow := Tree.mem_nodes_trans (mem_nodes_of_body hmember hbody)
    (Tree.mem_nodes_of_mem_walkBelow ht)
  exact Tree.bounds_of_mem_nodes (Tree.children_of_mem_nodes hlaid hu).1 hbelow

/-- **The calls are found in the order of the source.** -/
theorem pairwise_foundCalls {registry : Registry}
    (hlaid : LaidFrom s.root.start s.root.children s.root.stop)
    (hc : (Flow.of s registry config).flowClass? = some c) :
    (f.foundCalls config c).Pairwise fun x y => x.2.start ≤ y.2.start := by
  have hmethods := ((pairwise_methods hlaid hc).filter (!·.isStatic)).filter
    (·.name ≠ config.entryMethod)
  have hsub : ∀ m ∈ (c.methods.filter (!·.isStatic)).filter (·.name ≠ config.entryMethod),
      m ∈ c.methods := fun m hm => List.mem_of_mem_filter (List.mem_of_mem_filter hm)
  rw [foundCalls, List.pairwise_flatMap]
  constructor
  · intro m hm
    rw [foundIn]
    cases hbody : m.body with
    | none => exact .nil
    | some body =>
      have hbelow := laidFrom_of_body hlaid hc (hsub m hm) hbody
      have hwalk := (Tree.pairwise_start_walkBelow hbelow (Tree.except rebindsThis)).filter
        (·.is .callExpression)
      have hcalls : (f.stepCalls body).Pairwise fun x y => x.2.start ≤ y.2.start := by
        refine hwalk.filterMap _ fun v w hle x hx y hy => ?_
        obtain ⟨_, -, rfl⟩ := Option.map_eq_some_iff.1 hx
        obtain ⟨_, -, rfl⟩ := Option.map_eq_some_iff.1 hy
        exact hle
      refine hcalls.filterMap _ fun v w hle x hx y hy => ?_
      obtain ⟨-, hx⟩ := Option.ite_none_right_eq_some.1 hx
      obtain ⟨-, hy⟩ := Option.ite_none_right_eq_some.1 hy
      obtain rfl := Option.some.inj hx
      obtain rfl := Option.some.inj hy
      exact hle
  · refine hmethods.imp_of_mem fun {m n} hm hn happart x hx y hy => ?_
    have hx := bounds_of_mem_foundIn hlaid hc (hsub m hm) hx
    have hy := bounds_of_mem_foundIn hlaid hc (hsub n hn) hy
    omega

/-- What a walk that leaves out what has a `this` of its own comes to in the body of a method is
what `this` goes through to, if it does not stand in a part of the code that is misread. -/
theorem mem_walkBelow_iff_reaches {body : Tree} (hbody : m.body = some body)
    (hfree : ∀ part ∈ m.misreadParts, t ∉ part.nodes) (hcall : t.is .callExpression) :
    t ∈ body.walkBelow (Tree.except rebindsThis) ↔ body.Reaches Tree.passesThis t := by
  have hskip : Tree.except rebindsThis t ≠ .skip := by
    rw [Tree.is_iff] at hcall
    simp [Tree.except, rebindsThis, Tree.isFunctionLike, Tree.isAny, Tree.functionKinds, Tree.is,
      hcall]
  by_cases ht : t ∈ body.nodes
  · have hself : body.passesThis := by
      by_contra hself
      exact hfree body (by simp [Method.misreadParts, hbody, hself]) ht
    rw [Tree.mem_walkBelow_iff]
    simp only [hskip, ne_eq, not_false_eq_true, and_true]
    refine Tree.below_iff_reaches hself fun n hn htn => ?_
    have hopen : n.is .abstractClassDeclaration = false := by
      by_contra hclass
      refine hfree n ?_ htn
      simp only [Method.misreadParts, List.mem_append, List.mem_flatMap, hbody]
      exact .inr ⟨body, by simp, List.mem_filter.2 ⟨hn, by simpa using hclass⟩⟩
    rw [decide_eq_true_eq, Tree.except_eq_enter_iff]
    simp only [rebindsThis, Tree.passesThis, Tree.isScope, hopen, Bool.or_false]
    cases n.isFunctionLike <;> cases n.is .arrowFunction <;> simp
  · exact iff_of_false (fun hwalk => ht (Tree.mem_nodes_of_mem_walkBelow hwalk))
      fun hreach => ht hreach.mem_nodes

/-- The calls that are found are the calls where `this` is the flow, if none stands in a part of the
code that is misread. -/
theorem mem_foundCalls_iff_stepCall (hplain : c.isThisPlain f a) (ha : a ≠ config.entryMethod) :
    ((a, b), t) ∈ f.foundCalls config c ↔ f.StepCall c a b t := by
  rw [mem_foundCalls, StepCall]
  simp only [ha, ne_eq, not_false_eq_true, true_and]
  refine and_congr_right fun hcalled => exists_congr fun m => and_congr_right fun hm =>
    and_congr_right fun hstatic => and_congr_right fun hname => ?_
  have hfree : ∀ part ∈ m.misreadParts, t ∉ part.nodes := by
    intro part hpart ht
    have hparts := List.all_eq_true.1 hplain m hm
    rw [hstatic, Bool.false_or, hname, decide_eq_false (not_not_intro rfl), Bool.false_or,
      List.all_eq_true] at hparts
    have hnone := List.all_eq_true.1 (hparts part hpart) t ht
    rw [hcalled] at hnone
    simp at hnone
  have hcall := is_callExpression_of_stepCalled? hcalled
  constructor
  · rintro ⟨body, hbody, ht⟩
    exact ⟨body, by simp [Method.code, hbody], (mem_walkBelow_iff_reaches hbody hfree hcall).1 ht⟩
  · rintro ⟨part, hpart, hreach⟩
    rw [Method.code, List.mem_append, Option.mem_toList] at hpart
    rcases hpart with hparameter | hbody
    · exact absurd hreach.mem_nodes (hfree part (by simp [Method.misreadParts, hparameter]))
    · exact ⟨part, hbody, (mem_walkBelow_iff_reaches hbody hfree hcall).2 hreach⟩

end Flow

/-! ### Reports -/

namespace Analyzer

variable {z : Analyzer} {text : String} {s : Source} {c : FlowClass} {a b : String}

/-- **For each pair of methods one report at the first call, and none if there is no call**, if the
caller calls no method in a part of its code that is misread. -/
theorem filter_stepCall_validate (hs : Source.parse text = .ok s)
    (hc : (z.flow s).flowClass? = some c)
    (hhost : ∀ r ∈ z.hostRules, r.Avoids "step-call-graph") (hplain : c.isThisPlain (z.flow s) a)
    (ha : a ≠ z.config.entryMethod) :
    (∃ t, (z.flow s).StepCall c a b t ∧ (∀ u, (z.flow s).StepCall c a b u → t.start ≤ u.start) ∧
      (z.validate text).diagnostics.filter (·.finding = .stepCall a b z.config.entryMethod) =
        [(z.flow s).diagnosticAt t (.stepCall a b z.config.entryMethod)]) ∨
    (∀ t, ¬ (z.flow s).StepCall c a b t) ∧
      (z.validate text).diagnostics.filter (·.finding = .stepCall a b z.config.entryMethod) =
        [] := by
  have hreports : (z.validate text).diagnostics.filter
      (·.finding = .stepCall a b z.config.entryMethod) =
        ((((z.flow s).foundCalls z.config c).filter (·.1 = (a, b))).take 1).map fun x =>
          (z.flow s).diagnosticAt x.2 (.stepCall x.1.1 x.1.2 z.config.entryMethod) := by
    have hcode : (z.validate text).diagnostics.filter
        (·.finding = .stepCall a b z.config.entryMethod) =
          ((z.validate text).diagnostics.filter (·.code = "step-call-graph")).filter
            (·.finding = .stepCall a b z.config.entryMethod) := by
      rw [List.filter_filter]
      refine List.filter_congr fun d _ => ?_
      by_cases hd : d.finding = .stepCall a b z.config.entryMethod
      · simp [hd, Diagnostic.code, Finding.code]
      · simp [hd]
    rw [hcode, validate_of_parse hs, filter_stepCallGraph hhost hc, Flow.checkStepCalls_eq,
      List.filter_map, ← filter_firstPerKey]
    have hkey : ((fun d : Diagnostic => decide (d.finding = .stepCall a b z.config.entryMethod)) ∘
        fun x : (String × String) × Tree => (z.flow s).diagnosticAt x.2
          (.stepCall x.1.1 x.1.2 z.config.entryMethod)) = fun x => decide (x.1 = (a, b)) := by
      funext x
      simp [Flow.diagnosticAt, Prod.ext_iff]
    rw [hkey]
  have hmem : ∀ t, ((a, b), t) ∈ (z.flow s).foundCalls z.config c ↔
      (z.flow s).StepCall c a b t := fun t => Flow.mem_foundCalls_iff_stepCall hplain ha
  have horder := (Flow.pairwise_foundCalls (f := z.flow s) (rooted_of_parse hs).2.2.laid hc).filter
    (·.1 = (a, b))
  rw [hreports]
  cases hfound : ((z.flow s).foundCalls z.config c).filter (·.1 = (a, b)) with
  | nil =>
    refine .inr ⟨fun t ht => ?_, rfl⟩
    exact List.filter_eq_nil_iff.1 hfound _ ((hmem t).2 ht) (by simp)
  | cons x rest =>
    obtain ⟨⟨a', b'⟩, t⟩ := x
    have hx := List.mem_filter.1 (hfound ▸ List.mem_cons_self : ((a', b'), t) ∈ _)
    obtain ⟨rfl, rfl⟩ := Prod.mk.inj (of_decide_eq_true hx.2)
    refine .inl ⟨t, (hmem t).1 hx.1, fun u hu => ?_, rfl⟩
    have hu : ((a', b'), u) ∈ ((a', b'), t) :: rest :=
      hfound ▸ List.mem_filter.2 ⟨(hmem u).2 hu, by simp⟩
    rw [hfound] at horder
    rcases List.mem_cons.1 hu with heq | hu
    · rw [Prod.mk.inj heq |>.2]
    · exact (List.pairwise_cons.1 horder).1 _ hu

/-- A flow in which the method `a` calls `b` twice, and `b` calls no method. -/
def callingText : String :=
  "class F extends B\x7ba()\x7bthis.b(()=>this.b())\x7db()\x7b\x7d\x7d"

/-- An analysis in which classes extend `B` and flows begin in `h`. -/
def callingAnalyzer : Analyzer where
  registry := .ofList []
  config := { Config.standard with baseClass := "B", entryMethod := "h" }

theorem filter_stepCall_validate_callingText : ∃ s c,
    (Source.parse callingText = .ok s ∧ (callingAnalyzer.flow s).flowClass? = some c ∧
      c.isThisPlain (callingAnalyzer.flow s) "a" ∧ c.isThisPlain (callingAnalyzer.flow s) "b" ∧
      "a" ≠ callingAnalyzer.config.entryMethod ∧
      "b" ≠ callingAnalyzer.config.entryMethod) ∧
    (∃ t, (callingAnalyzer.flow s).StepCall c "a" "b" t ∧
      (∀ u, (callingAnalyzer.flow s).StepCall c "a" "b" u → t.start ≤ u.start) ∧
      (callingAnalyzer.validate callingText).diagnostics.filter
        (·.finding = .stepCall "a" "b" "h") =
          [(callingAnalyzer.flow s).diagnosticAt t (.stepCall "a" "b" "h")]) ∧
    (∀ t, ¬ (callingAnalyzer.flow s).StepCall c "b" "a" t) ∧
      (callingAnalyzer.validate callingText).diagnostics.filter
        (·.finding = .stepCall "b" "a" "h") = [] := by
  have hread : (Source.parse callingText).toOption.any fun s =>
      (callingAnalyzer.flow s).flowClass?.any fun c =>
        c.isThisPlain (callingAnalyzer.flow s) "a" && c.isThisPlain (callingAnalyzer.flow s) "b" &&
        decide (((callingAnalyzer.check s).diagnostics.filter
          (·.finding = .stepCall "a" "b" "h")).length = 1) &&
        decide (((callingAnalyzer.check s).diagnostics.filter
          (·.finding = .stepCall "b" "a" "h")).length = 0) := by decide +kernel
  have ha : "a" ≠ callingAnalyzer.config.entryMethod := by decide
  have hb : "b" ≠ callingAnalyzer.config.entryMethod := by decide
  have hhost : ∀ r ∈ callingAnalyzer.hostRules, r.Avoids "step-call-graph" := by
    simp [callingAnalyzer]
  cases hs : Source.parse callingText with
  | error e =>
    rw [hs] at hread
    simp [Except.toOption] at hread
  | ok s =>
    rw [hs] at hread
    change (Option.any _ (some s)) = true at hread
    rw [Option.any_some] at hread
    obtain ⟨c, hc, hread⟩ := Option.any_eq_true _ _ |>.1 hread
    simp only [Bool.and_eq_true, decide_eq_true_eq] at hread
    obtain ⟨⟨⟨haplain, hbplain⟩, hone⟩, hnone⟩ := hread
    rw [← validate_of_parse hs] at hone hnone
    refine ⟨s, c, ⟨rfl, hc, haplain, hbplain, ha, hb⟩, ?_, ?_⟩
    · rcases filter_stepCall_validate (b := "b") hs hc hhost haplain ha with h | ⟨-, h⟩
      · exact h
      · exact absurd (hone.symm.trans (congrArg List.length h)) Nat.one_ne_zero
    · rcases filter_stepCall_validate (b := "a") hs hc hhost hbplain hb with ⟨t, -, -, h⟩ | h
      · exact absurd (hnone.symm.trans (congrArg List.length h)) Nat.zero_ne_one
      · exact h

end Analyzer

end FlowAnalysis
