import FlowAnalysis.Proofs.Trimming.Checks

/-!
# The environment in trimmed flows

Where the environment as a whole is used depends on the wrappers around it, and on which of them are
taken off.

## Main definitions

* `Flow.environmentSearch` — the search for the environment as a whole.
* `Trimming.Agree` — contexts in which the same is found.

## Main results

* `Flow.Matches.blind_environment` — **the search for the environment is blind.**
* `Flow.Matches.findings_checkEnvironment` — the rule.
-/

namespace FlowAnalysis

open Syntax Trimming

variable {P : Trimming} {s' s : Source} {f' f : Flow} {config : Config} {u t v c p e : Tree}

namespace Flow

/-! ### The search -/

/-- The search for the environment as a whole. -/
def environmentSearch (f : Flow) : Search Bool :=
  ⟨usedSingly, fun single t => if f.isEnvironment t && !single then .keep else .enter,
    fun single t => f.isEnvironment t && !single⟩

theorem counts_environmentSearch (f : Flow) (single : Bool) (t : Tree) :
    f.environmentSearch.counts single t = (f.isEnvironment t && !single) := rfl

theorem visit_environmentSearch (f : Flow) (single : Bool) (t : Tree) :
    f.environmentSearch.visit single t =
      if f.isEnvironment t && !single then .keep else .enter := rfl

/-- The rule reports what the search finds. -/
theorem findings_environmentSearch (f : Flow) : f.checkEnvironment.map (·.finding) =
    (f.environmentSearch.found false f.source.root).map fun _ => .wholeEnvironment := by
  rw [checkEnvironment, Search.found, List.map_map, List.map_map]
  rfl

theorem isEnvironment_of_not_is (f : Flow) (h : t.is .memberExpression = false) :
    f.isEnvironment t = false := by
  rw [isEnvironment, h]
  rfl

theorem isEnvironment_of_quiet (f : Flow) (h : t.isAny loudKinds = false) :
    f.isEnvironment t = false := by
  refine f.isEnvironment_of_not_is ?_
  rw [← Tree.isAny_singleton]
  exact Tree.isAny_eq_false_of_subset (by decide) h

/-- Only where the parent passes on how it is used does it matter how that is. -/
theorem usedSingly_of_not_isWrapper (h : t.isWrapper = false) (outer : Bool) (c : Tree) :
    usedSingly t outer c = usedSingly t false c := by
  rw [usedSingly, usedSingly, Tree.isAny_eq_false_of_subset (by decide) h]
  rfl

/-- The expression inside a wrapper is used as the wrapper is, unless that is `satisfies`. -/
theorem usedSingly_of_isWrapper (h : t.isWrapper) (outer : Bool) (c : Tree) :
    usedSingly t outer c = (outer && !t.is .satisfiesExpression) := by
  obtain ⟨k, hk, hlabel⟩ := Tree.isAny_iff.1 h
  simp only [Tree.wrapperKinds, List.mem_cons, List.not_mem_nil, or_false] at hk
  rcases hk with rfl | rfl | rfl | rfl <;>
    simp [usedSingly, Tree.isAny, Tree.is, hlabel]

end Flow

/-! ### Contexts -/

namespace Syntax

namespace Tree

/-- The wrappers inside a wrapper. -/
def innerWrappers (t : Tree) : List (Tree × Tree) :=
  if t.isWrapper then (t.firstNamed?.map (wrappers t)).getD [] else []

theorem innerWrappers_of_first (h : t.isWrapper) (hfirst : t.firstNamed? = some c) :
    t.innerWrappers = wrappers t c := by
  rw [innerWrappers, if_pos h, hfirst]
  rfl

/-- A child of a wrapper is the expression inside, or stands beside it. -/
theorem firstNamed?_or_mem_besides (h : c ∈ t.children) :
    t.firstNamed? = some c ∨ c ∈ besides t.children := by
  have hlist : ∀ ts : List Tree, c ∈ ts →
      (ts.filter fun c => c.isNamed && !c.is .comment).head? = some c ∨ c ∈ besides ts := by
    intro ts
    induction ts with
    | nil => simp
    | cons d ds ih =>
      intro hc
      rw [besides, List.filter_cons]
      split
      · rcases List.mem_cons.1 hc with rfl | hc
        · exact .inl rfl
        · exact .inr hc
      · rcases List.mem_cons.1 hc with rfl | hc
        · exact .inr List.mem_cons_self
        · exact (ih hc).imp_right (List.mem_cons_of_mem d)
  exact hlist t.children h

end Tree

namespace Trimming

/-- Whether one of some wrappers is `satisfies`. -/
def isSatisfied (ws : List (Tree × Tree)) : Bool := ws.any (·.2.is .satisfiesExpression)

/-- Whether one of those that stay is. -/
def staysSatisfied (P : Trimming) (ws : List (Tree × Tree)) : Bool :=
  ws.any fun w => w.2.is .satisfiesExpression && !P.opens w.1 w.2

/-- The environment is used singly in a trimmed source if it is in the source, where `satisfies` is
not passed; where none is taken off, everything is used alike. -/
def Agree (P : Trimming) (f : Flow) (k' k : Bool) (_ t : Tree) : Prop :=
  (P.OpensSatisfies f.source → f.isEnvironment t.bare →
    (k' && !(t.is .satisfiesExpression || P.staysSatisfied t.innerWrappers)) =
      (k && !(t.is .satisfiesExpression || isSatisfied t.innerWrappers))) ∧
    (¬ P.OpensSatisfies f.source → k' = k)

/-- At the environment itself the contexts are the same. -/
theorem Agree.eq {k' k : Bool} (h : P.Agree f k' k u t) (ht : f.isEnvironment t) : k' = k := by
  by_cases hopened : P.OpensSatisfies f.source
  swap
  · exact h.2 hopened
  have hmember : t.is .memberExpression := by
    by_contra hnot
    rw [f.isEnvironment_of_not_is (by simpa using hnot)] at ht
    cases ht
  have hlabel := Tree.is_iff.1 hmember
  have hwrapper : t.isWrapper = false := by
    simp [Tree.isWrapper, Tree.isAny, Tree.wrapperKinds, Tree.is, hlabel]
  have hbare : t.bare = t := by rw [Tree.bare_eq, hwrapper]; rfl
  have hagree := h.1 hopened (hbare.symm ▸ ht)
  rw [Tree.innerWrappers, hwrapper] at hagree
  simpa [Tree.is, hlabel, staysSatisfied, isSatisfied] using hagree

end Trimming

end Syntax

namespace Flow.Matches

theorem isEnvironment_eq (ht : P.Matches f'.source f.source u t) :
    f'.isEnvironment u = f.isEnvironment t := by
  have hobject := ht.rel_bare_field? .object
  have hproperty := ht.rel_property
  unfold isEnvironment
  rw [ht.is_eq]
  generalize u.field? .object = o', t.field? .object = o at hobject
  generalize u.field? .property = p', t.field? .property = p at hproperty
  split
  · cases hobject with
    | none => rfl
    | @some o' o ho =>
      cases hproperty with
      | none => rfl
      | some hp =>
        dsimp only
        rw [ho.is_eq, textOf, textOf, hp.2]
        cases hname : o.bare.is .identifier with
        | false => rfl
        | true => rw [ho.textOf_of_is hname (by decide)]; rfl
  · rfl

theorem readsSingly_eq (h : P.Matches s' s u t) : readsSingly u = readsSingly t := by
  unfold readsSingly
  rw [h.is_eq, ← List.not_any_eq_all_not, ← List.not_any_eq_all_not,
    h.forall₂_named.any_eq fun v c hc => hc.is_eq (k := .restPattern) (by decide)]

theorem usedSingly_eq (h : P.Matches s' s u t) (outer : Bool) (hrole : v.role = c.role) :
    usedSingly u outer v = usedSingly t outer c := by
  unfold usedSingly
  have hname : (u.field? .name).any readsSingly = (t.field? .name).any readsSingly :=
    (h.rel_field?_of_mem (by decide)).any_eq fun _ _ hn => readsSingly_eq hn
  rw [h.isAny_eq, h.isAny_eq, h.is_eq, hrole, hname]

/-- What is found in an expression is found in what is left of it, in a context that takes account
of the wrappers. -/
theorem exists_context (hP : P.Harmless config f' f) (single : Bool)
    (hp : p ∈ f.source.root.nodes) (hc : c ∈ p.children) :
    P.staysSatisfied (Tree.wrappers p c) = ((P.core p c).is .satisfiesExpression ||
        P.staysSatisfied (P.core p c).innerWrappers) ∧
      ∃ l, f.environmentSearch.found single c = f.environmentSearch.found l (P.core p c) ∧
        (single && !isSatisfied (Tree.wrappers p c)) =
          (l && !((P.core p c).is .satisfiesExpression ||
            isSatisfied (P.core p c).innerWrappers)) ∧
        (¬ P.OpensSatisfies f.source → l = single) := by
  revert hp hc
  induction p, c using core_induction (P := P) generalizing single with
  | keep p c h =>
    intro _ _
    rw [core_of_not_opens h]
    have hwrappers : ∀ q : Tree × Tree → Bool, (Tree.wrappers p c).any q =
        (c.isWrapper && q (p, c) || c.innerWrappers.any q) := by
      intro q
      rw [Tree.wrappers_eq, Tree.innerWrappers]
      cases c.isWrapper <;> rfl
    have hsatisfies : (c.isWrapper && c.is .satisfiesExpression) = c.is .satisfiesExpression := by
      rw [Bool.and_eq_right_iff_imp]
      exact fun hc => Tree.isAny_iff.2 ⟨_, by decide, Tree.is_iff.1 hc⟩
    rw [staysSatisfied, isSatisfied, hwrappers, hwrappers]
    simp only [Bool.eq_false_iff.2 h, Bool.not_false, Bool.and_true, hsatisfies]
    exact ⟨rfl, single, rfl, rfl, fun _ => rfl⟩
  | opened p c e h ih =>
    intro hp hc
    have hmem : c ∈ f.source.root.nodes :=
      Tree.mem_nodes_trans hp (Tree.mem_nodes_of_child hc)
    obtain ⟨hstays, l, hfound, hcontext, hsame⟩ :=
      ih (single && !c.is .satisfiesExpression) hmem h.mem_children
    have hwrappers : Tree.wrappers p c = (p, c) :: Tree.wrappers c e := by
      rw [Tree.wrappers_eq, if_pos h.isWrapper, h.first]
      rfl
    rw [h.core_eq, hwrappers]
    refine ⟨?_, l, ?_, ?_, fun hnot => ?_⟩
    · rw [← hstays]
      simp [staysSatisfied, h.opens]
    · rw [← hfound, Search.found_eq, visit_environmentSearch, counts_environmentSearch,
        f.isEnvironment_of_quiet h.isAny_loudKinds]
      refine (Tree.flatMap_children h.first fun d hd => ?_).trans ?_
      · refine Search.found_eq_nil _ (fun k n hn => ?_) _
        rw [counts_environmentSearch,
          isEnvironment_of_isMute (hP.beside p hp c hc h.opens d hd n hn), Bool.false_and]
      · show f.environmentSearch.found (usedSingly c single e) e = _
        rw [usedSingly_of_isWrapper h.isWrapper]
    · rw [← hcontext]
      simp [isSatisfied, Bool.and_assoc]
    · have hother : c.is .satisfiesExpression = false :=
        Bool.eq_false_iff.2 fun hc' => hnot ⟨p, hp, c, hc, hc', h.opens⟩
      rw [hsame hnot, hother, Bool.not_false, Bool.and_true]

/-- Around an environment that is used singly there is `satisfies` in both sources or in none. -/
theorem staysSatisfied_eq (hP : P.Harmless config f' f) (hp : p ∈ f.source.root.nodes)
    (hc : c ∈ p.children) (henv : f.isEnvironment c.bare) (hused : usedSingly p false c) :
    P.staysSatisfied (Tree.wrappers p c) = isSatisfied (Tree.wrappers p c) := by
  rw [Bool.eq_iff_iff, staysSatisfied, isSatisfied, List.any_eq_true, List.any_eq_true]
  simp only [Bool.and_eq_true, Bool.not_eq_true']
  refine ⟨fun ⟨w, hw, hsat⟩ => ⟨w, hw, hsat.1⟩, fun ⟨w, hw, hsat⟩ => ?_⟩
  by_cases hopens : P.opens w.1 w.2
  · obtain ⟨w', hw', hsat', hkept⟩ := hP.environment p hp c hc henv hused ⟨w, hw, hsat, hopens⟩
    exact ⟨w', hw', hsat', by simpa using hkept⟩
  · exact ⟨w, hw, hsat, by simpa using hopens⟩

/-- A child is found in agreeing contexts if its parent is. -/
theorem agree_child (hP : P.Harmless config f' f) {k' k l : Bool}
    (h : P.Matches f'.source f.source u t) (hk : P.Agree f k' k u t)
    (hc : P.Part f'.source f.source t v c)
    (hstays : P.staysSatisfied (Tree.wrappers t c) = ((P.core t c).is .satisfiesExpression ||
      P.staysSatisfied (P.core t c).innerWrappers))
    (hl : (usedSingly t k c && !isSatisfied (Tree.wrappers t c)) =
      (l && !((P.core t c).is .satisfiesExpression || isSatisfied (P.core t c).innerWrappers)))
    (hsame : ¬ P.OpensSatisfies f.source → l = usedSingly t k c) :
    P.Agree f (usedSingly u k' v) l v (P.core t c) := by
  refine ⟨fun hopened henv => ?_, fun hnot => by rw [hsame hnot, usedSingly_eq h k' hc.role,
    hk.2 hnot]⟩
  rw [bare_core] at henv
  rw [← hl, ← hstays, usedSingly_eq h k' hc.role]
  cases hwrapper : t.isWrapper with
  | false =>
    -- The parent uses the child as it does, whatever it is used for itself.
    rw [usedSingly_of_not_isWrapper hwrapper, usedSingly_of_not_isWrapper hwrapper k]
    cases hused : usedSingly t false c with
    | false => rfl
    | true =>
      rw [staysSatisfied_eq hP h.mem_nodes hc.mem henv hused]
  | true =>
    -- A wrapper passes on how it is used; only the expression inside can be the environment.
    have hfirst : t.firstNamed? = some c := by
      refine (Tree.firstNamed?_or_mem_besides hc.mem).resolve_right fun hbeside => ?_
      rw [hP.types hopened t h.mem_nodes hwrapper c hbeside] at henv
      cases henv
    have hbare : t.bare = c.bare := by
      rw [Tree.bare_eq, if_pos hwrapper, hfirst]
      rfl
    have hagree := hk.1 hopened (hbare ▸ henv)
    rw [Tree.innerWrappers_of_first hwrapper hfirst] at hagree
    rw [usedSingly_of_isWrapper hwrapper, usedSingly_of_isWrapper hwrapper, Bool.and_assoc,
      Bool.and_assoc, ← Bool.not_or, ← Bool.not_or]
    exact hagree

/-- **The search for the environment is blind.** -/
theorem blind_environment (hP : P.Harmless config f' f) :
    P.Blind f'.source f.source (P.Agree f) f'.environmentSearch f.environmentSearch where
  quiet' single t ht := by
    rw [counts_environmentSearch, f'.isEnvironment_of_quiet ht, Bool.false_and]
  quiet single t ht := by
    rw [counts_environmentSearch, f.isEnvironment_of_quiet ht, Bool.false_and]
  counts_eq {k' k u t} h hk := by
    rw [counts_environmentSearch, counts_environmentSearch, isEnvironment_eq h]
    cases ht : f.isEnvironment t with
    | false => rfl
    | true => rw [hk.eq ht]
  visit_eq {k' k u t} h hk := by
    rw [visit_environmentSearch, visit_environmentSearch, isEnvironment_eq h]
    cases ht : f.isEnvironment t with
    | false => rfl
    | true => rw [hk.eq ht]
  core {k' k u t v c} h hk hc := by
    obtain ⟨hstays, l, hfound, hl, hsame⟩ :=
      exists_context hP (usedSingly t k c) h.mem_nodes hc.mem
    exact ⟨l, agree_child hP h hk hc hstays hl hsame, hfound⟩

theorem findings_checkEnvironment (h : Flow.Matches P f' f) (hP : P.Harmless config f' f) :
    f'.checkEnvironment.map (·.finding) = f.checkEnvironment.map (·.finding) := by
  have hagree : P.Agree f false false f'.source.root f.source.root :=
    ⟨fun _ _ => rfl, fun _ => rfl⟩
  have hfound := (blind_environment hP).forall₂_found h.trims.root hagree
  rw [findings_environmentSearch, findings_environmentSearch]
  exact hfound.map_eq fun _ _ _ => rfl

end Flow.Matches

end FlowAnalysis
