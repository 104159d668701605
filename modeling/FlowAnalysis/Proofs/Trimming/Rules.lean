import FlowAnalysis.Lint.Rule
import FlowAnalysis.Proofs.Trimming.Environment

/-!
# Style rules on trimmed flows

The rules on complexity, on code from texts and on schedules find in a trimmed flow what they find
in the flow.

## Main results

* `Flow.Matches.findings_checkComplexity`, `Flow.Matches.findings_checkDynamicCode`,
  `Flow.Matches.findings_checkSchedule` — the rules.
-/

namespace FlowAnalysis

open Syntax Trimming

variable {P : Trimming} {s' s : Source} {f' f : Flow} {config : Config} {u t v c : Tree}

theorem Flow.dynamicCode?_of_not_isAny (f : Flow) {t : Tree}
    (h : t.isAny [.callExpression, .newExpression] = false) : f.dynamicCode? t = none := by
  simp only [Tree.isAny, List.any_cons, List.any_nil, Bool.or_false, Bool.or_eq_false_iff] at h
  simp [dynamicCode?, evaluators, h]

namespace Flow.Matches

/-! ### Complexity -/

theorem branches_eq (h : P.Matches s' s u t) : branches u = branches t := by
  have hoperator : (u.field? .operator).any (fun o => branchOperators.any o.isToken) =
      (t.field? .operator).any fun o => branchOperators.any o.isToken :=
    (h.rel_field?_of_mem (by decide)).any_eq fun _ _ ho => by simp only [funext ho.isToken_eq]
  rw [branches, branches, h.isAny_eq, h.is_eq, hoperator]

theorem branches_of_not_isAny (h : t.isAny (.binaryExpression :: branchKinds) = false) :
    branches t = false := by
  have hkinds : (t.is .binaryExpression || t.isAny branchKinds) = false := h
  rw [Bool.or_eq_false_iff] at hkinds
  rw [branches, hkinds.1, hkinds.2]
  rfl

/-- A body has as many paths as before. -/
theorem complexity_eq (hP : P.Harmless config f' f) (h : P.Body f'.source f.source v c) :
    complexity v = complexity c := by
  have hquiet : ∀ t : Tree, t.isAny loudKinds = false → branches t = false := fun t ht =>
    branches_of_not_isAny (Tree.isAny_eq_false_of_subset (by decide) ht)
  have hwalk : ∀ t : Tree, (t.walkBelow fun _ => .enter) = t.nodes := by
    intro t
    rw [← Tree.walk_enter, Tree.walk_eq, Tree.walkBelow, Tree.walkChildren_eq]
  have hbranches : List.Forall₂ (P.Matches f'.source f.source)
      ((v.walkBelow fun _ => .enter).filter branches)
      ((c.walkBelow fun _ => .enter).filter branches) :=
    h.forall₂_walkBelow (blind_plain
      (hP.deaf fun n hn => branches_of_not_isAny (isAny_of_isMute hn (by decide))) hquiet hquiet
      (fun _ _ => branches_eq) (fun _ _ _ => rfl) fun _ _ _ _ _ _ => .inl rfl) fun _ _ _ => rfl
  rw [hwalk, hwalk] at hbranches
  rw [complexity, complexity, List.countP_eq_length_filter, List.countP_eq_length_filter,
    hbranches.length_eq]

theorem findings_checkComplexity (h : Flow.Matches P f' f) (hP : P.Harmless config f' f)
    (config : Config) :
    (f'.checkComplexity config).map (·.finding) = (f.checkComplexity config).map (·.finding) := by
  have hmethods : List.Forall₂ (Method.Matches P f'.source f.source)
      (f'.flowClasses.flatMap (·.methods)) (f.flowClasses.flatMap (·.methods)) :=
    List.rel_flatMap h.flowClasses fun _ _ hc => hc.methods
  rw [checkComplexity, checkComplexity, List.map_filterMap, List.map_filterMap]
  refine hmethods.filterMap_eq fun m' m hm => ?_
  have hbody := hm.body
  rw [hm.name]
  generalize m'.body = body', m.body = body at hbody
  cases hbody with
  | none => rfl
  | some hbody =>
    simp only [Option.bind_some, complexity_eq hP hbody]
    split <;> rfl

/-! ### Dynamic code -/

theorem dynamicCode?_eq (ht : P.Matches f'.source f.source u t) :
    f'.dynamicCode? u = f.dynamicCode? t := by
  -- The kind of the node says which names count, and which of its children has to bear one.
  have hnames : (evaluators u).2 = (evaluators t).2 := by
    unfold evaluators
    rw [ht.is_eq, ht.is_eq]
    split
    · rfl
    · split <;> rfl
  have hcallee : Option.Rel (fun c' c => P.Matches f'.source f.source c'.bare c.bare)
      (evaluators u).1 (evaluators t).1 := by
    unfold evaluators
    rw [ht.is_eq, ht.is_eq]
    split
    · exact ht.rel_bare_field? .function
    · split
      · exact ht.rel_bare_field? .constructor
      · exact .none
  unfold dynamicCode?
  dsimp only
  rw [hnames]
  refine hcallee.bind_eq fun c' c hc => ?_
  rw [hc.is_eq]
  cases hname : c.bare.is .identifier with
  | false => rfl
  | true => rw [show f'.textOf c'.bare = f.textOf c.bare from hc.textOf_of_is hname (by decide)]

/-- The rule reports the nodes that turn texts into code. -/
theorem findings_dynamicCode (f : Flow) : f.checkDynamicCode.map (·.finding) =
    ((f.source.root.walk fun _ => .enter).filter fun t => (f.dynamicCode? t).isSome).filterMap
      fun t => (f.dynamicCode? t).map .dynamicCode := by
  rw [checkDynamicCode, List.map_filterMap, List.filterMap_filter, Tree.walk_enter]
  refine List.filterMap_congr fun t _ => ?_
  cases f.dynamicCode? t <;> rfl

theorem findings_checkDynamicCode (h : Flow.Matches P f' f) (hP : P.Harmless config f' f) :
    f'.checkDynamicCode.map (·.finding) = f.checkDynamicCode.map (·.finding) := by
  have hquiet : ∀ (f : Flow) (t : Tree), t.isAny loudKinds = false →
      (f.dynamicCode? t).isSome = false := by
    intro f t ht
    rw [f.dynamicCode?_of_not_isAny (Tree.isAny_eq_false_of_subset (by decide) ht)]
    rfl
  rw [findings_dynamicCode, findings_dynamicCode]
  refine (h.trims.root.forall₂_walk (blind_plain (hP.deaf fun n hn => ?_) (hquiet f') (hquiet f)
    (fun u t ht => ?_) (fun _ _ _ => rfl) fun _ _ _ _ _ _ => .inl rfl)).filterMap_eq
      fun u t ht => ?_
  · rw [dynamicCode?_of_isMute hn]
    rfl
  · rw [dynamicCode?_eq ht]
  · rw [dynamicCode?_eq ht]

/-! ### Schedules -/

theorem eventOf?_eq {c' c : FlowClass} (hc : FlowClass.Matches P f'.source f.source c' c) :
    f'.eventOf? c' = f.eventOf? c := by
  have hfirst : Option.Rel (P.Matches f'.source f.source) (c'.typeArguments.bind Tree.firstNamed?)
      (c.typeArguments.bind Tree.firstNamed?) :=
    hc.typeArguments.bind fun _ _ ha => ha.1.rel_firstNamed?_of_isClosedAt ha.2.2
  refine hfirst.bind_eq fun u t ht => ?_
  unfold Source.literalType?
  rw [ht.is_eq]
  split
  · next hliteral =>
    refine (ht.rel_firstNamed?_of_isClosedAt fun r => ?_).bind_eq fun _ _ hc => hc.stringValue?
    simp [Tree.isClosedAt, Tree.isAny, hliteral]
  · exact ht.stringValue?

theorem scheduleOf?_eq {c' c : FlowClass} (hc : FlowClass.Matches P f'.source f.source c' c) :
    f'.scheduleOf? c' = f.scheduleOf? c :=
  ((hc.rel_field? _).bind fun _ _ hf => hf.value).bind_eq fun _ _ hv => hv.stringValue?

theorem findings_checkSchedule (h : Flow.Matches P f' f) :
    f'.checkSchedule.map (·.finding) = f.checkSchedule.map (·.finding) := by
  have hclass := h.rel_flowClass?
  unfold checkSchedule
  generalize f'.flowClass? = c', f.flowClass? = c at hclass
  cases hclass with
  | none => rfl
  | some hc =>
    dsimp only
    rw [List.map_map, List.map_map, scheduleOf?_eq hc, eventOf?_eq hc]
    rfl

end Flow.Matches

end FlowAnalysis
