import FlowAnalysis.Proofs.Bracing.Checks
import FlowAnalysis.Proofs.Trimming.Rules

/-!
# Style rules on flows in normal form

The rules on the environment, on complexity, on code from texts and on schedules find in the normal
form what they find in the source.  Blocks are no branches, and nothing is read or called by one.

## Main results

* `Twin.follows_environment` — the search for the environment goes through blocks.
* `Flow.Twins.findings_checkEnvironment`, `Flow.Twins.findings_checkComplexity`,
  `Flow.Twins.findings_checkDynamicCode`, `Flow.Twins.findings_checkSchedule` — the rules.
* `Flow.Twins.trigger?_eq` — the trigger.
-/

namespace FlowAnalysis

open Syntax

variable {s' s : Source} {named : Prop} {f' f : Flow} {t' t : Tree}

/-! ### The environment -/

theorem Flow.isEnvironment_of_isSilent (f : Flow) (h : t.isSilent) : f.isEnvironment t = false := by
  rw [isEnvironment, Tree.is_of_isSilent (by decide) h]
  rfl

theorem Flow.usedSingly_of_isEnclosing {outer : Bool} {c : Tree} (h : t.isEnclosing) :
    Flow.usedSingly t outer c = false := by
  have hnot : ∀ ks : List Kind, (∀ k ∈ ks, k.enclosing = false) → t.isAny ks = false :=
    fun ks hks => Bool.eq_false_iff.2 fun ht => by
      simp [Tree.isEnclosing_of_isAny ht hks] at h
  have hdeclarator := hnot [.variableDeclarator] (by decide)
  rw [Tree.isAny_singleton] at hdeclarator
  simp [usedSingly, hnot [.parenthesizedExpression, .asExpression, .nonNullExpression] (by decide),
    hnot [.memberExpression, .subscriptExpression] (by decide), hdeclarator]

namespace Twin

theorem isEnvironment_eq (h : Twin f'.source f.source t' t) :
    f'.isEnvironment t' = f.isEnvironment t := by
  unfold Flow.isEnvironment
  rw [h.is_eq]
  split
  · next hkind =>
    have hobject := h.rel_bare_field? (Tree.isOwner_of_is hkind rfl) .object
    have hproperty := h.rel_property hkind
    generalize t'.field? .object = o', t.field? .object = o at hobject
    generalize t'.field? .property = p', t.field? .property = p at hproperty
    cases hobject with
    | none => rfl
    | @some o' o ho =>
      cases hproperty with
      | none => rfl
      | some hp =>
        dsimp only
        rw [ho.is_eq, Flow.textOf, Flow.textOf, hp.2]
        cases hname : o.bare.is .identifier with
        | false => rfl
        | true => rw [ho.textOf_of_is hname (.inl rfl)]; rfl
  · rfl

theorem readsSingly_eq (h : Twin s' s t' t) : Flow.readsSingly t' = Flow.readsSingly t := by
  unfold Flow.readsSingly
  rw [h.is_eq]
  cases hkind : t.is .objectPattern with
  | false => rfl
  | true =>
    have hrest := (h.forall₂_named (Tree.isOwner_of_is hkind rfl)).any_eq
      fun _ _ hc => hc.is_eq .restPattern
    rw [← List.not_any_eq_all_not, ← List.not_any_eq_all_not, hrest]

theorem usedSingly_eq (h : Twin s' s t' t) (outer : Bool) {c' c : Tree} (hrole : c'.role = c.role) :
    Flow.usedSingly t' outer c' = Flow.usedSingly t outer c := by
  unfold Flow.usedSingly
  rw [h.isAny_eq, h.isAny_eq, h.is_eq, hrole]
  cases hkind : t.is .variableDeclarator with
  | false => rfl
  | true =>
    have hname : (t'.field? .name).any Flow.readsSingly = (t.field? .name).any Flow.readsSingly :=
      (h.rel_field? (Tree.isOwner_of_is hkind rfl) .name).any_eq fun _ _ hc => hc.readsSingly_eq
    rw [hname]

/-- **The search for the environment goes through blocks.** -/
theorem follows_environment (f' f : Flow) :
    Search.Follows True f'.source f.source (· = ·) f'.environmentSearch f.environmentSearch where
  silent' _ t ht := by
    rw [Flow.counts_environmentSearch, f'.isEnvironment_of_isSilent ht, Bool.false_and]
  silent _ t ht := by
    rw [Flow.counts_environmentSearch, f.isEnvironment_of_isSilent ht, Bool.false_and]
  counts_eq hc ht := by
    rw [Flow.counts_environmentSearch, Flow.counts_environmentSearch, ht.isEnvironment_eq, hc]
  visit_eq hc ht := by
    rw [Flow.visit_environmentSearch, Flow.visit_environmentSearch, ht.isEnvironment_eq, hc]
  down {c' c t' t u' u} hc ht _ hrole := by
    subst hc
    exact ht.usedSingly_eq _ hrole
  block {c' c t' t u' u} hc ht hbody hpart := by
    -- Neither a branch nor a loop uses its body, and neither does a block.
    have howner : t.isEnclosing := Tree.isEnclosing_of_isOwner
      (Tree.body?_cases (Tree.body?_of_bareBody? hbody)).1
    have hlabel := (Tree.uncommented_of_isBlockOfOne (hpart.block hbody)).1
    have hblock : u'.isEnclosing := by rw [Tree.isEnclosing, hlabel]
    have hsilent := Tree.isSilent_of_block hlabel
    refine ⟨fun _ => ?_, ?_⟩
    · rw [Flow.visit_environmentSearch, f'.isEnvironment_of_isSilent hsilent]
      rfl
    · show Flow.usedSingly u' _ _ = Flow.usedSingly t c u
      rw [Flow.usedSingly_of_isEnclosing howner, Flow.usedSingly_of_isEnclosing hblock]

end Twin

theorem Flow.Twins.findings_checkEnvironment (h : Flow.Twins named f' f) :
    f'.checkEnvironment.map (·.finding) = f.checkEnvironment.map (·.finding) := by
  have hvisited : List.Forall₂ (fun x' x => Twin f'.source f.source x'.1 x.1 ∧ x'.2 = x.2)
      (f'.environmentSearch.visited false f'.source.root)
      (f.environmentSearch.visited false f.source.root) :=
    ((Twin.follows_environment f' f).thins rfl h.bracing.twin_root).forall₂ trivial
  have hfound : ∀ f : Flow, f.environmentSearch.found false f.source.root =
      (f.environmentSearch.visited false f.source.root).map Prod.fst := fun _ => rfl
  rw [findings_environmentSearch, findings_environmentSearch, hfound, hfound, List.map_map,
    List.map_map]
  exact hvisited.map_eq fun _ _ _ => rfl

/-! ### Complexity and dynamic code -/

namespace Twin

theorem branches_eq (h : Twin s' s t' t) : Flow.branches t' = Flow.branches t := by
  unfold Flow.branches
  rw [h.isAny_eq, h.is_eq]
  cases hkind : t.is .binaryExpression with
  | false => rfl
  | true =>
    have hoperator : (t'.field? .operator).any (fun o => Flow.branchOperators.any o.isToken) =
        (t.field? .operator).any fun o => Flow.branchOperators.any o.isToken :=
      (h.rel_field? (Tree.isOwner_of_is hkind rfl) .operator).any_eq fun _ _ ho => by
        simp only [funext ho.isToken_eq]
    rw [hoperator]

theorem complexity_eq (h : Twin s' s t' t) : Flow.complexity t' = Flow.complexity t := by
  have hsilent : ∀ t : Tree, t.isSilent → Flow.branches t = false := by
    intro t ht
    rw [Flow.branches, Tree.is_of_isSilent (by decide) ht, Tree.isAny_of_isSilent (by decide) ht]
    rfl
  have hbranches := (h.forall₂_walk (Search.follows_plain hsilent hsilent
    (fun _ _ ht => ht.branches_eq) (fun _ _ _ => rfl) fun _ _ _ => rfl)).length_eq
  rw [Tree.walk_enter, Tree.walk_enter] at hbranches
  rw [Flow.complexity, Flow.complexity, List.countP_eq_length_filter, List.countP_eq_length_filter,
    hbranches]

theorem dynamicCode?_eq (h : Twin f'.source f.source t' t)
    (ht : t.isAny [.callExpression, .newExpression]) : f'.dynamicCode? t' = f.dynamicCode? t := by
  have howner := Tree.isOwner_of_isAny ht (by decide)
  have hnames : (Flow.evaluators t').2 = (Flow.evaluators t).2 := by
    unfold Flow.evaluators
    rw [h.is_eq, h.is_eq]
    split
    · rfl
    · split <;> rfl
  have hcallee : Option.Rel (fun c' c => Twin f'.source f.source c'.bare c.bare)
      (Flow.evaluators t').1 (Flow.evaluators t).1 := by
    unfold Flow.evaluators
    rw [h.is_eq, h.is_eq]
    split
    · exact h.rel_bare_field? howner .function
    · split
      · exact h.rel_bare_field? howner .constructor
      · exact .none
  unfold Flow.dynamicCode?
  dsimp only
  rw [hnames]
  refine hcallee.bind_eq fun c' c hc => ?_
  rw [hc.is_eq]
  cases hname : c.bare.is .identifier with
  | false => rfl
  | true => rw [show f'.textOf c'.bare = f.textOf c.bare from hc.textOf_of_is hname (.inl rfl)]

end Twin

/-- Only calls and constructions turn texts into code. -/
theorem Flow.findings_dynamicCalls (f : Flow) : f.checkDynamicCode.map (·.finding) =
    (f.source.root.nodes.filter (·.isAny [.callExpression, .newExpression])).filterMap
      fun t => (f.dynamicCode? t).map .dynamicCode := by
  rw [checkDynamicCode, List.map_filterMap, List.filterMap_filter]
  refine List.filterMap_congr fun t _ => ?_
  split
  · rw [Option.map_map]
    rfl
  · next ht =>
    rw [f.dynamicCode?_of_not_isAny (Bool.eq_false_iff.2 ht)]
    rfl

namespace Flow.Twins

variable (h : Flow.Twins named f' f)

include h

theorem findings_checkComplexity (config : Config) :
    (f'.checkComplexity config).map (·.finding) = (f.checkComplexity config).map (·.finding) := by
  have hmethods := List.rel_flatMap h.flowClasses fun _ _ hc => hc.methods
  rw [checkComplexity, checkComplexity, List.map_filterMap, List.map_filterMap]
  refine List.Forall₂.filterMap_eq hmethods fun m' m hm => ?_
  have hbody := hm.body
  rw [hm.name]
  generalize m'.body = body', m.body = body at hbody
  cases hbody with
  | none => rfl
  | some hbody =>
    simp only [Option.bind_some, hbody.complexity_eq]
    split <;> rfl

theorem findings_checkDynamicCode :
    f'.checkDynamicCode.map (·.finding) = f.checkDynamicCode.map (·.finding) := by
  rw [findings_dynamicCalls, findings_dynamicCalls]
  refine ((h.bracing.twin_root.forall₂_nodes (by decide)).imp_of_mem fun _ _ ht htwin =>
    And.intro htwin (List.mem_filter.1 ht).2).filterMap_eq fun t' t ht => ?_
  rw [ht.1.dynamicCode?_eq ht.2]

end Flow.Twins

/-! ### Schedules -/

theorem FlowClass.Twins.eventOf?_eq {c' c : FlowClass}
    (h : FlowClass.Twins f'.source f.source c' c) : f'.eventOf? c' = f.eventOf? c := by
  have hfirst : Option.Rel (Twin f'.source f.source) (c'.typeArguments.bind Tree.firstNamed?)
      (c.typeArguments.bind Tree.firstNamed?) :=
    h.typeArguments.bind fun _ _ ha => ha.1.rel_firstNamed? ha.2
  refine hfirst.bind_eq fun t' t ht => ?_
  unfold Source.literalType?
  rw [ht.is_eq]
  split
  · next hliteral =>
    exact (ht.rel_firstNamed? (Tree.isOwner_of_is hliteral rfl)).bind_eq
      fun _ _ hc => hc.stringValue?
  · exact ht.stringValue?

theorem FlowClass.Twins.scheduleOf?_eq {c' c : FlowClass}
    (h : FlowClass.Twins f'.source f.source c' c) : f'.scheduleOf? c' = f.scheduleOf? c :=
  ((h.rel_field? _).bind fun _ _ hf => hf.value).bind_eq fun _ _ hv => hv.bare.stringValue?

namespace Flow.Twins

variable (h : Flow.Twins named f' f)

include h

theorem findings_checkSchedule :
    f'.checkSchedule.map (·.finding) = f.checkSchedule.map (·.finding) := by
  have hclass := h.rel_flowClass?
  unfold checkSchedule
  generalize f'.flowClass? = c', f.flowClass? = c at hclass
  cases hclass with
  | none => rfl
  | some hc =>
    dsimp only
    rw [List.map_map, List.map_map, hc.scheduleOf?_eq, hc.eventOf?_eq]
    rfl

/-- **The trigger is the same.** -/
theorem trigger?_eq : f'.trigger? = f.trigger? :=
  h.rel_flowClass?.bind_eq fun c' c hc => by rw [hc.eventOf?_eq, hc.scheduleOf?_eq]

end Flow.Twins

end FlowAnalysis
