import FlowAnalysis.Analysis
import FlowAnalysis.Proofs.Keyed

/-!
# Requirements and records

What a flow needs and what its records say is read off the constructions separately, but a host uses
both together: it injects into a record the handles of the kinds that its class needs.  The two
agree, since what a flow needs for a class is what the records of the class need, taken together.

## Main definitions

* `Record.kinds`, `Records.kindsOf` — the kinds that a record needs, and those that the records of a
  class need.
* `Requirements.Suits` — requirements that say of each class what its records need.

## Main results

* `mem_insertTexts`, `pairwise_insertTexts` — sets of texts with more elements.
* `Requirements.get?_foldl_meet` — what is needed for a class after several needs were met.
* `Flow.requirements_eq` — **what a flow needs is what its records need.**
* `Analyzer.suits_requirements` — **for each class the kinds that its records need, and nothing for
  a class whose records need none.**
-/

namespace FlowAnalysis

/-! ### Sets of texts -/

section Sets

variable {set more : List String} {s k : String}

theorem mem_insertText : k ∈ insertText s set ↔ k = s ∨ k ∈ set := by
  have hkeys : (set.map (·, ())).map Prod.fst = set := by simp [Function.comp_def]
  rw [insertText, ← Keyed.isSome_get?_iff, Keyed.get?_insert, ← hkeys, ← Keyed.isSome_get?_iff,
    hkeys]
  by_cases hk : s = k
  · simp [hk]
  · simp [hk, Ne.symm hk]

theorem pairwise_insertText (h : set.Pairwise (· < ·)) (s : String) :
    (insertText s set).Pairwise (· < ·) := by
  have hset : Keyed.Ordered (set.map (·, ())) := List.pairwise_map.2 h
  exact List.pairwise_map.2 (hset.insert s ())

/-- A set with more elements has these and its own. -/
theorem mem_insertTexts : k ∈ insertTexts more set ↔ k ∈ more ∨ k ∈ set := by
  induction more generalizing set with
  | nil => simp [insertTexts]
  | cons s more ih =>
    rw [insertTexts, List.foldl_cons, ← insertTexts, ih, mem_insertText, List.mem_cons,
      or_left_comm, or_assoc]

/-- A set with more elements is in order and has each of them once. -/
theorem pairwise_insertTexts (h : set.Pairwise (· < ·)) (more : List String) :
    (insertTexts more set).Pairwise (· < ·) := by
  induction more generalizing set with
  | nil => exact h
  | cons s more ih => exact ih (pairwise_insertText h s)

theorem insertTexts_append (more more' set : List String) :
    insertTexts (more ++ more') set = insertTexts more' (insertTexts more set) :=
  List.foldl_append

end Sets

/-! ### Meeting needs -/

namespace Requirements

variable {needed : Requirements} {needs : List (String × List String)} {className : String}

/-- What is needed, with what a class needs in addition; that may be nothing. -/
def meet (needed : Requirements) (need : String × List String) : Requirements :=
  match need.2 with
  | [] => needed
  | kinds => needed.add need.1 kinds

theorem get?_meet (needed : Requirements) (need : String × List String) (className : String) :
    Keyed.get? (needed.meet need) className =
      if need.1 = className ∧ need.2 ≠ [] then
        some (insertTexts need.2 ((Keyed.get? needed className).getD []))
      else Keyed.get? needed className := by
  obtain ⟨c, kinds⟩ := need
  cases kinds with
  | nil => simp [meet]
  | cons k kinds =>
    change Keyed.get? (needed.add c (k :: kinds)) className = _
    rw [add, Keyed.get?_insert]
    by_cases hc : c = className
    · subst hc
      simp
    · simp [hc]

/-- **What is needed for a class after several needs were met**: what was needed before, and all
that the class needs among them. -/
theorem get?_foldl_meet (needs : List (String × List String)) (needed : Requirements)
    (className : String) : Keyed.get? (needs.foldl meet needed) className =
      let kinds := (needs.filter (·.1 = className)).flatMap (·.2)
      if kinds = [] then Keyed.get? needed className
      else some (insertTexts kinds ((Keyed.get? needed className).getD [])) := by
  induction needs generalizing needed with
  | nil => rfl
  | cons need needs ih =>
    rw [List.foldl_cons, ih, get?_meet]
    by_cases hc : need.1 = className
    · rw [List.filter_cons_of_pos (by simpa using hc), List.flatMap_cons]
      by_cases hkinds : need.2 = []
      · simp only [hkinds, ne_eq, not_true_eq_false, and_false, if_false, List.nil_append]
      · -- What the class needs first is there when its later needs are met.
        simp only [hc, hkinds, ne_eq, not_false_eq_true, and_self, if_true, Option.getD_some,
          List.append_eq_nil_iff, false_and, if_false, insertTexts_append]
        split
        · next hrest => rw [hrest]; rfl
        · rfl
    · rw [List.filter_cons_of_neg (by simpa using hc)]
      simp [hc]

theorem ordered_foldl_meet (h : Keyed.Ordered needed) (needs : List (String × List String)) :
    Keyed.Ordered (needs.foldl meet needed) := by
  induction needs generalizing needed with
  | nil => exact h
  | cons need needs ih =>
    refine ih ?_
    rw [meet]
    split
    · exact h
    · exact h.insert _ _

end Requirements

/-! ### What records need -/

/-- The kinds of credentials that the class of a record needs for the operation of the record. -/
def Record.kinds (r : Record) (registry : Registry) : List String :=
  match registry.resolve? r.className with
  | some d => d.credentials.forOperation r.operation
  | none => []

/-- The kinds that the records of a class need, record by record. -/
def Records.kindsOf (rs : Records) (registry : Registry) (className : String) : List String :=
  (rs.filter (·.2.className = className)).flatMap (·.2.kinds registry)

/-- The needs of records, in their order. -/
def Records.needs (rs : Records) (registry : Registry) : List (String × List String) :=
  rs.map fun e => (e.2.className, e.2.kinds registry)

theorem Records.kindsOf_eq (rs : Records) (registry : Registry) (className : String) :
    rs.kindsOf registry className =
      ((rs.needs registry).filter (·.1 = className)).flatMap (·.2) := by
  rw [needs, List.filter_map, List.flatMap_map]
  rfl

/-- Only a class that is known needs anything. -/
theorem Records.contains_of_kindsOf {rs : Records} {registry : Registry} {className : String}
    (h : rs.kindsOf registry className ≠ []) : registry.contains className := by
  obtain ⟨k, hk⟩ := List.exists_mem_of_ne_nil _ h
  obtain ⟨e, he, hk⟩ := List.mem_flatMap.1 hk
  have hclass : e.2.className = className := by simpa using (List.mem_filter.1 he).2
  rw [Registry.contains, ← hclass]
  cases hd : registry.resolve? e.2.className with
  | none => simp [Record.kinds, hd] at hk
  | some d => rfl

namespace Flow

theorem kinds_recordOf (f : Flow) (registry : Registry) (config : Config) (n : Nat)
    (c : Construction) : (f.recordOf registry config n c).kinds registry = f.kindsOf registry c :=
  rfl

/-- The needs of the records are those of the constructions. -/
theorem needs_records (f : Flow) (registry : Registry) (config : Config) :
    (f.records registry config).needs registry =
      f.constructions.map fun c => (c.className, f.kindsOf registry c) := by
  refine List.ext_getElem (by simp [Records.needs, records]) fun i _ _ => ?_
  simp only [Records.needs, records, List.getElem_map, List.getElem_mapIdx, kinds_recordOf]
  rfl

/-- **What a flow needs is what its records need.** -/
theorem requirements_eq (f : Flow) (registry : Registry) (config : Config) :
    f.requirements registry =
      ((f.records registry config).needs registry).foldl Requirements.meet [] := by
  rw [needs_records, List.foldl_map]
  rfl

end Flow

/-! ### Agreement -/

/-- Requirements that say of each class what the records of the class need, as the registry has it
for their operations. -/
structure Requirements.Suits (needed : Requirements) (rs : Records) (registry : Registry) :
    Prop where
  /-- The kinds of a class are those that its records need, taken together. -/
  kinds : ∀ e ∈ needed, ∀ k, k ∈ e.2 ↔ k ∈ rs.kindsOf registry e.1
  /-- A class is left out if its records need nothing, and only then. -/
  absent : ∀ className,
    (∀ e ∈ needed, e.1 ≠ className) ↔ rs.kindsOf registry className = []
  /-- No class stands without kinds. -/
  nonempty : ∀ e ∈ needed, e.2 ≠ []
  /-- Every class is known. -/
  registered : ∀ e ∈ needed, registry.contains e.1
  /-- Each class stands once, and the classes are in order. -/
  classesAscend : needed.Pairwise fun e e' => e.1 < e'.1
  /-- Each kind of a class stands once, and the kinds are in order. -/
  kindsAscend : ∀ e ∈ needed, e.2.Pairwise (· < ·)

/-- **What a flow needs suits its records**: for each class the kinds that its records need, and
nothing for a class whose records need none. -/
theorem Analyzer.suits_requirements (a : Analyzer) (s : Syntax.Source) :
    ((a.flow s).requirements a.registry).Suits ((a.flow s).records a.registry a.config)
      a.registry := by
  have hordered : Keyed.Ordered ((a.flow s).requirements a.registry) := by
    rw [(a.flow s).requirements_eq a.registry a.config]
    exact Requirements.ordered_foldl_meet .nil _
  have hget : ∀ className, Keyed.get? ((a.flow s).requirements a.registry) className =
      let kinds := ((a.flow s).records a.registry a.config).kindsOf a.registry className
      if kinds = [] then none else some (insertTexts kinds []) := by
    intro className
    rw [(a.flow s).requirements_eq a.registry a.config, Requirements.get?_foldl_meet,
      Records.kindsOf_eq]
    rfl
  -- What stands for a class is the set of what its records need.
  have hentry : ∀ e ∈ (a.flow s).requirements a.registry,
      ((a.flow s).records a.registry a.config).kindsOf a.registry e.1 ≠ [] ∧
        e.2 = insertTexts
          (((a.flow s).records a.registry a.config).kindsOf a.registry e.1) [] := by
    intro e he
    have hsome := hordered.get?_of_mem he
    rw [hget e.1] at hsome
    dsimp only at hsome
    split at hsome
    · simp at hsome
    · next hne => exact ⟨hne, (Option.some.inj hsome).symm⟩
  constructor
  case kinds =>
    intro e he k
    rw [(hentry e he).2, mem_insertTexts]
    simp
  case absent =>
    intro className
    rw [← Keyed.get?_eq_none_iff, hget className]
    simp
  case nonempty =>
    intro e he hnil
    obtain ⟨hne, heq⟩ := hentry e he
    obtain ⟨k, hk⟩ := List.exists_mem_of_ne_nil _ hne
    have hmem : k ∈ e.2 := heq ▸ mem_insertTexts.2 (.inl hk)
    rw [hnil] at hmem
    simp at hmem
  case registered =>
    intro e he
    exact Records.contains_of_kindsOf (hentry e he).1
  case classesAscend => exact hordered
  case kindsAscend =>
    intro e he
    rw [(hentry e he).2]
    exact pairwise_insertTexts .nil _

end FlowAnalysis
