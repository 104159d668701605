import FlowAnalysis.Proofs.Bracing.Arguments
import FlowAnalysis.Proofs.Written

/-!
# Flows in normal form

The parts of a flow are in the normal form what they are in the source, at twins.  Classes and
members are told apart by texts, which are to be the same for that.

## Main definitions

* `Flow.Twins` — a flow whose parts are those of another flow, in normal form.

## Main results

* `Flow.twins_of` — **the flow of the normal form is that of the source, in normal form.**
-/

namespace FlowAnalysis

open Syntax

/-! ### Parts of flows -/

/-- A method of the normal form is a method of the source. -/
structure Method.Twins (s' s : Source) (m' m : Method) : Prop where
  name : m'.name = m.name
  node : Twin s' s m'.node m.node
  parameters : List.Forall₂ (fun t' t => Twin s' s t' t ∧ t.isEnclosing = false) m'.parameters
    m.parameters
  body : Option.Rel (Twin s' s) m'.body m.body
  isStatic : m'.isStatic = m.isStatic

/-- A field of the normal form is a field of the source. -/
structure Field.Twins (s' s : Source) (f' f : Field) : Prop where
  name : f'.name = f.name
  value : Option.Rel (Twin s' s) f'.value f.value

/-- A class of the normal form is a class of the source. -/
structure FlowClass.Twins (s' s : Source) (c' c : FlowClass) : Prop where
  node : Twin s' s c'.node c.node
  name : (∀ t ∈ c.node.field? .name, t.isVerbatim) → c'.name = c.name
  typeArguments : Option.Rel (fun t' t => Twin s' s t' t ∧ t.isOwner = false) c'.typeArguments
    c.typeArguments
  methods : List.Forall₂ (Method.Twins s' s) c'.methods c.methods
  fields : List.Forall₂ (Field.Twins s' s) c'.fields c.fields

/-- A construction of the normal form is a construction of the source, which has the same name if
names are to be the same. -/
structure Construction.Twins (named : Prop) (s' s : Source) (c' c : Construction) : Prop where
  node : Twin s' s c'.node c.node
  className : c'.className = c.className
  arguments : List.Forall₂ (Twin s' s) c'.arguments c.arguments
  binding : named → c'.binding = c.binding

/-- A flow of a normal form is the flow of the source. -/
structure Flow.Twins (named : Prop) (f' f : Flow) : Prop where
  bracing : f'.source.Bracing f.source
  imports : f'.imports = f.imports
  flowClasses : List.Forall₂ (FlowClass.Twins f'.source f.source) f'.flowClasses f.flowClasses
  constructions : List.Forall₂ (Construction.Twins named f'.source f.source) f'.constructions
    f.constructions
  entryMethodName : f'.entryMethodName = f.entryMethodName

/-! ### Imports -/

namespace Twin

variable {s' s : Source} {t' t : Tree}

/-- The name of a member is read as a text. -/
theorem rel_property (h : Twin s' s t' t) (ht : t.is .memberExpression) :
    Option.Rel (fun c' c => Twin s' s c' c ∧ s'.textOf c' = s.textOf c) (t'.field? .property)
      (t.field? .property) := by
  refine (h.rel_field? (Tree.isOwner_of_is ht rfl) .property).imp_of_eq fun c' c hc htwin =>
    ⟨htwin, htwin.textOf_of_isVerbatim (Tree.isVerbatim_of_straight ?_)⟩
  have hlabel := Tree.is_iff.1 ht
  have hformed := (h.laid hlabel (by decide)).formed
  rw [hlabel, formed_member] at hformed
  obtain ⟨hmem, hrole⟩ := Tree.field?_eq_some hc
  exact hformed c hmem hrole

/-- What is imported is read as a text. -/
theorem rel_textOf_specifier (h : Twin s' s t' t) (ht : t.is .importSpecifier) (r : Role) :
    Option.Rel (fun c' c => s'.textOf c' = s.textOf c) (t'.field? r) (t.field? r) := by
  refine (h.rel_field? (Tree.isOwner_of_is ht rfl) r).imp_of_eq fun c' c hc htwin =>
    htwin.textOf_of_isVerbatim (Tree.isVerbatim_of_straight ?_)
  have hlabel := Tree.is_iff.1 ht
  have hformed := (h.laid hlabel (by decide)).formed
  rw [hlabel, formed_textual rfl, List.all_eq_true] at hformed
  exact hformed c (Tree.field?_eq_some hc).1

end Twin

namespace Flow

variable {s' s : Source} {t' t : Tree}

theorem importOf?_twin (module : String) (h : Twin s' s t' t) (ht : t.is .importSpecifier) :
    importOf? s' module t' = importOf? s module t := by
  have hlocal := h.rel_textOf_specifier ht .alias
  unfold importOf?
  refine (h.rel_textOf_specifier ht .name).map_eq fun name' name hname => ?_
  generalize t'.field? .alias = local' at hlocal
  generalize t.field? .alias = local? at hlocal
  cases hlocal with
  | none => simp [hname]
  | some hlocal => simp [hname, hlocal]

theorem importsOfStatement_twin (h : Twin s' s t' t) (ht : t.is .importStatement) :
    importsOfStatement s' t' = importsOfStatement s t := by
  have hmodule : (t'.field? .source).bind s'.stringValue? = (t.field? .source).bind s.stringValue? :=
    (h.rel_field? (Tree.isOwner_of_is ht rfl) .source).bind_eq fun _ _ hc => hc.stringValue?
  unfold importsOfStatement
  rw [hmodule]
  split
  · next module _ =>
    have hnodes : List.Forall₂ (Twin s' s) (t'.nodes.filter (·.isAny [.importSpecifier]))
        (t.nodes.filter (·.isAny [.importSpecifier])) := h.forall₂_nodes (by decide)
    simp only [Tree.isAny_singleton] at hnodes
    exact (hnodes.imp_of_mem fun c' c hc htwin =>
      And.intro htwin (List.mem_filter.1 hc).2).filterMap_eq fun _ _ hc =>
        importOf?_twin module hc.1 hc.2
  · rfl

theorem importsOf_twin (h : s'.Bracing s) : importsOf s' = importsOf s := by
  have hroot : s.root.isOwner = false :=
    Tree.isOwner_of_is (Tree.is_iff.2 h.rooted.label) rfl
  exact ((h.twin_root.forall₂_named_filter hroot .importStatement).imp_of_mem fun _ _ hc htwin =>
    And.intro htwin (List.mem_filter.1 hc).2).flatMap_eq fun _ _ hc =>
      importsOfStatement_twin hc.1 hc.2

/-! ### Classes -/

/-- The parameters of a function, which have no statements among their parts. -/
theorem forall₂_parametersOf_twin (h : Twin s' s t' t) (ht : t.isOwner = false) :
    List.Forall₂ (fun t' t => Twin s' s t' t ∧ t.isEnclosing = false) (parametersOf t')
      (parametersOf t) := by
  have hlist := (h.rel_field? ht .parameters).imp_of_eq fun c' c hc htwin =>
    And.intro htwin (Tree.label_of_suits (h.suits (Tree.field?_eq_some hc).1)
      (Tree.field?_eq_some hc).2)
  unfold parametersOf
  generalize t'.field? .parameters = list' at hlist
  generalize t.field? .parameters = list at hlist
  cases hlist with
  | none =>
    have hparameter := (h.rel_field? ht .parameter).imp_of_eq fun c' c hc htwin =>
      And.intro htwin (Tree.isEnclosing_of_suits (h.suits (Tree.field?_eq_some hc).1)
        (Tree.field?_eq_some hc).2)
    generalize t'.field? .parameter = parameter' at hparameter
    generalize t.field? .parameter = parameter at hparameter
    cases hparameter with
    | none => exact .nil
    | some hc => exact .cons hc .nil
  | @some list' list hc =>
    obtain ⟨htwin, hlabel⟩ := hc
    have howner : list.isOwner = false := Tree.isOwner_of_is (Tree.is_iff.2 hlabel) rfl
    refine (htwin.forall₂_named howner).imp_of_mem fun c' c hc hparameter => ⟨hparameter, ?_⟩
    have hrespects := htwin.respects (Tree.mem_children_of_named hc)
    rw [Tree.ban, hlabel] at hrespects
    exact Tree.isEnclosing_of_respects hrespects

theorem memberName_twin (h : Twin s' s t' t) (ht : t.isVerbatim) :
    memberName s' t' = memberName s t := by
  rw [memberName, memberName, h.is_eq, h.stringValue?, h.textOf_of_isVerbatim ht]

theorem isStatic_twin (h : Twin s' s t' t) (ht : t.isEnclosing = false) :
    isStatic t' = isStatic t := h.any_isToken_children ht _

theorem rel_functionValue?_twin (h : Twin s' s t' t) (ht : t.isOwner = false) :
    Option.Rel (Twin s' s) (functionValue? t') (functionValue? t) := by
  have hvalue : Option.Rel (Twin s' s) ((t'.field? .value).map Tree.bare)
      ((t.field? .value).map Tree.bare) :=
    (h.rel_field? ht .value).map fun _ _ hc => hc.bare
  exact hvalue.filter fun _ _ hc => hc.isAny_eq _

theorem rel_methodOf?_twin (h : Twin s' s t' t) (ht : ∀ name ∈ t.field? .name, name.isVerbatim) :
    Option.Rel (Method.Twins s' s) (methodOf? s' t') (methodOf? s t) := by
  cases hkind : t.isAny [.methodDefinition, .fieldDefinition] with
  | false =>
    have hnone : ∀ (s : Source) (t : Tree), t.isAny [.methodDefinition, .fieldDefinition] = false →
        methodOf? s t = none := by
      intro s t ht
      simp only [Tree.isAny, List.any_cons, List.any_nil, Bool.or_false,
        Bool.or_eq_false_iff] at ht
      unfold methodOf?
      cases t.field? .name with
      | none => rfl
      | some name => simp [ht.1, ht.2]
    rw [hnone s t hkind, hnone s' t' ((h.isAny_eq _).trans hkind)]
    exact .none
  | true =>
    have hplain : t.isEnclosing = false := Tree.isEnclosing_of_isAny hkind (by decide)
    have howner := Tree.isOwner_of_isEnclosing hplain
    have hname := (h.rel_field? howner .name).imp_of_eq fun c' c hc htwin =>
      memberName_twin htwin (ht c hc)
    refine hname.bind fun name' name hname => ?_
    rw [h.is_eq, h.is_eq]
    split
    · exact .some ⟨hname, h, forall₂_parametersOf_twin h howner, h.rel_field? howner .body,
        isStatic_twin h hplain⟩
    · split
      · refine ((rel_functionValue?_twin h howner).imp_of_eq fun f' f hf htwin =>
          And.intro htwin (?_ : f.isOwner = false)).map fun f' f hf => ?_
        · exact Tree.isOwner_of_isAny (Option.filter_eq_some_iff.1 hf).2 (by decide)
        · exact ⟨hname, h, forall₂_parametersOf_twin hf.1 hf.2, hf.1.rel_field? hf.2 .body,
            isStatic_twin h hplain⟩
      · exact .none

theorem rel_fieldOf?_twin (h : Twin s' s t' t) (ht : ∀ name ∈ t.field? .name, name.isVerbatim) :
    Option.Rel (Field.Twins s' s) (fieldOf? s' t') (fieldOf? s t) := by
  unfold fieldOf?
  rw [h.is_eq]
  split
  · next hfield =>
    have howner : t.isOwner = false := Tree.isOwner_of_is hfield rfl
    exact ((h.rel_field? howner .name).imp_of_eq fun c' c hc htwin =>
      memberName_twin htwin (ht c hc)).map fun _ _ hname => ⟨hname, h.rel_field? howner .value⟩
  · exact .none

theorem rel_extendsClause?_twin (h : Twin s' s t' t) (ht : t.isOwner = false) :
    Option.Rel (Twin s' s) (extendsClause? t') (extendsClause? t) := by
  have hheritage := (h.forall₂_named ht).find? (q := (·.is .classHeritage))
    (p := (·.is .classHeritage)) fun _ _ hc => hc.is_eq _
  refine (hheritage.imp_of_eq fun c' c hc htwin => And.intro htwin (?_ : c.isOwner = false)).bind
    fun c' c hc => (hc.1.forall₂_named hc.2).find? fun _ _ hd => hd.is_eq _
  have hkind : c.is .classHeritage := List.find?_some (p := fun t : Tree => t.is .classHeritage) hc
  exact Tree.isOwner_of_is hkind rfl

theorem is_extendsClause {clause : Tree} (h : extendsClause? t = some clause) :
    clause.is .extendsClause := by
  obtain ⟨c, -, hclause⟩ := Option.bind_eq_some_iff.1 h
  exact List.find?_some (p := fun t : Tree => t.is .extendsClause) hclause

theorem baseName?_twin {clause' clause : Tree} (h : Twin s' s clause' clause)
    (hclause : clause.is .extendsClause)
    (hbase : ∀ base ∈ (clause.field? .value).or clause.firstNamed?, base.isVerbatim) :
    baseName? s' clause' = baseName? s clause := by
  have howner : clause.isOwner = false := Tree.isOwner_of_is hclause rfl
  refine (((h.rel_field? howner .value).or (h.rel_firstNamed? howner)).imp_of_eq
    fun base' base hfound htwin => And.intro htwin (hbase base hfound)).bind_eq
      fun base' base hc => ?_
  rw [hc.1.is_eq, hc.1.textOf_of_isVerbatim hc.2]
  split
  · next hmember => exact (hc.1.rel_property hmember).map_eq fun _ _ hp => hp.2
  · rfl

theorem rel_typeArguments_twin {clause' clause : Tree} (h : Twin s' s clause' clause)
    (hclause : clause.is .extendsClause) :
    Option.Rel (fun c' c => Twin s' s c' c ∧ c.isOwner = false)
      ((clause'.field? .typeArguments).or (clause'.named.find? (·.is .typeArguments)))
      ((clause.field? .typeArguments).or (clause.named.find? (·.is .typeArguments))) := by
  have howner : clause.isOwner = false := Tree.isOwner_of_is hclause rfl
  refine ((h.rel_field? howner .typeArguments).or
    ((h.forall₂_named howner).find? fun _ _ hc => hc.is_eq _)).imp_of_eq fun c' c hc htwin =>
      ⟨htwin, h.isOwner_of_mem (Tree.isEnclosing_of_is hclause rfl) ?_⟩
  rcases Option.or_eq_some_iff.1 hc with hc | ⟨-, hc⟩
  · exact (Tree.field?_eq_some hc).1
  · exact Tree.mem_children_of_named (List.mem_of_find?_eq_some hc)

theorem forall₂_membersOf (h : Twin s' s t' t) (ht : t.isEnclosing = false) :
    List.Forall₂ (Twin s' s) (membersOf t') (membersOf t) :=
  ((h.rel_field? (Tree.isOwner_of_isEnclosing ht) .body).imp_of_eq fun _ _ hc htwin =>
    And.intro htwin (h.isOwner_of_mem ht (Tree.field?_eq_some hc).1)).map
      (fun _ _ hc => hc.1.forall₂_named hc.2) |>.forall₂_getD

theorem rel_flowClassOf?_twin (bases : List String) (h : Twin s' s t' t)
    (ht : t.isAny [.classDeclaration, .classExpression])
    (hbase : ∀ base ∈ t.base?, base.isVerbatim)
    (hmembers : (flowClassOf? s bases t).isSome → ∀ m ∈ membersOf t, ∀ name ∈ m.field? .name,
      name.isVerbatim) :
    Option.Rel (FlowClass.Twins s' s) (flowClassOf? s' bases t') (flowClassOf? s bases t) := by
  have hplain : t.isEnclosing = false := Tree.isEnclosing_of_isAny ht (by decide)
  have howner := Tree.isOwner_of_isEnclosing hplain
  have hclauses := rel_extendsClause?_twin h howner
  unfold flowClassOf?
  generalize hclause' : extendsClause? t' = clause' at hclauses
  generalize hclause : extendsClause? t = clause at hclauses
  cases hclauses with
  | none => exact .none
  | @some clause' clause htwin =>
    have hkind := is_extendsClause hclause
    have hname : baseName? s' clause' = baseName? s clause :=
      baseName?_twin htwin hkind fun base hfound =>
        hbase base (Option.bind_eq_some_iff.2 ⟨clause, hclause, hfound⟩)
    rw [Option.bind_eq_bind, Option.bind_eq_bind, Option.bind_some, Option.bind_some, hname]
    cases hbaseName : baseName? s clause with
    | none => exact .none
    | some base =>
      by_cases hcontains : bases.contains base
      · have hsome : (flowClassOf? s bases t).isSome := by
          unfold flowClassOf?
          simp only [hclause, hbaseName, hcontains, guard, Option.bind_eq_bind, Option.bind_some,
            if_true]
          rfl
        have hmember := (forall₂_membersOf h hplain).imp_of_mem fun m' m hm htwin =>
          And.intro htwin (hmembers hsome m hm)
        simp only [hcontains, guard, if_true, Option.bind_some]
        refine .some ⟨h, fun hverbatim => ?_, rel_typeArguments_twin htwin hkind,
          List.rel_filterMap (fun _ _ hm => rel_methodOf?_twin hm.1 hm.2) hmember,
          List.rel_filterMap (fun _ _ hm => rel_fieldOf?_twin hm.1 hm.2) hmember⟩
        exact congrArg (Option.getD · "(anonymous)") (((h.rel_field? howner .name).imp_of_eq
          fun c' c hc htwin => htwin.textOf_of_isVerbatim (hverbatim c hc)).map_eq fun _ _ => id)
      · simp only [hcontains, guard, Bool.false_eq_true, if_false, Option.bind_some]
        exact .none

/-! ### Constructions -/

theorem constructed?_twin (imports : List Import) (h : Twin s' s t' t) (ht : t.isOwner = false) :
    constructed? s' imports t' = constructed? s imports t := by
  refine (h.rel_bare_field? ht .constructor).bind_eq fun c' c hc => ?_
  rw [hc.is_eq, hc.is_eq]
  split
  · next hname => rw [hc.textOf_of_is hname (.inl rfl)]
  · split
    · next hmember => exact (hc.rel_property hmember).map_eq fun _ _ hp => by rw [hp.2]
    · rfl

theorem bindingOf?_twin {target' target : Option Tree}
    (h : Option.Rel (fun c' c => Twin s' s c' c ∧ c.isVerbatim) target' target) :
    bindingOf? s' target' = bindingOf? s target :=
  (h.filter fun _ _ hc => hc.1.isAny_eq _).map_eq fun _ _ hc => hc.1.textOf_of_isVerbatim hc.2

theorem rel_constructionOf?_twin {named : Prop} (imports : List Import) (registry : Registry)
    (config : Config) (h : Twin s' s t' t) (ht : t.is .newExpression) {target' target : Option Tree}
    (htarget : Option.Rel (Twin s' s) target' target)
    (hnamed : named → ∀ t ∈ target, t.isVerbatim) :
    Option.Rel (Construction.Twins named s' s)
      (constructionOf? s' imports registry config t' target')
      (constructionOf? s imports registry config t target) := by
  have hplain : t.isEnclosing = false := Tree.isEnclosing_of_is ht rfl
  have howner := Tree.isOwner_of_isEnclosing hplain
  unfold constructionOf?
  rw [constructed?_twin imports h howner]
  cases constructed? s imports t with
  | none => exact .none
  | some found =>
    obtain ⟨className, module⟩ := found
    simp only [Option.bind_eq_bind, Option.bind_some, guard]
    split
    · refine .some ⟨h, rfl, ?_, fun hexact => ?_⟩
      · exact ((h.rel_field? howner .arguments).imp_of_eq fun _ _ hc htwin =>
          And.intro htwin (h.isOwner_of_mem hplain (Tree.field?_eq_some hc).1)).map
            (fun _ _ hc => hc.1.forall₂_named hc.2) |>.forall₂_getD
      · exact bindingOf?_twin (htarget.imp_of_eq fun c' c hc htwin =>
          And.intro htwin (hnamed hexact c hc))
    · exact .none

/-- What receives a value is the same whether or not a body stands in a block. -/
theorem rel_receiver {outer' outer : Option Tree} {u' u : Tree}
    (houter : Option.Rel (Twin s' s) outer' outer) (h : Twin s' s t' t)
    (hrole : u'.role = u.role) :
    Option.Rel (Twin s' s) (receiver t' outer' u') (receiver t outer u) := by
  have hfield : ∀ {ks : List Kind} (r : Role), t.isAny ks → (∀ k ∈ ks, k.owner = false) →
      Option.Rel (Twin s' s) (t'.field? r) (t.field? r) := fun r ht hks =>
    h.rel_field? (Tree.isOwner_of_isAny ht hks) r
  unfold receiver
  rw [h.isWrapper_eq, h.isAny_eq, h.is_eq, hrole]
  split
  · exact houter
  · split
    · next hdeclared =>
      split
      · exact hfield .name hdeclared (by decide)
      · exact .none
    · split
      · next hassigned =>
        split
        · exact h.rel_field? (Tree.isOwner_of_is hassigned rfl) .left
        · exact .none
      · exact .none

theorem receiver_of_isEnclosing {outer : Option Tree} {u : Tree} (h : t.isEnclosing) :
    receiver t outer u = none := by
  have hnot : ∀ ks : List Kind, (∀ k ∈ ks, k.enclosing = false) → t.isAny ks = false :=
    fun ks hks => Bool.eq_false_iff.2 fun ht => by
      simp [Tree.isEnclosing_of_isAny ht hks] at h
  have hassignment := hnot [.assignmentExpression] (by decide)
  rw [Tree.isAny_singleton] at hassignment
  simp [receiver, Tree.isWrapper, hnot Tree.wrapperKinds (by decide),
    hnot [.variableDeclarator, .fieldDefinition] (by decide), hassignment]

theorem forall₂_received (h : s'.Bracing s) {k : Kind} (hk : k ≠ .comment ∧ k ≠ .statementBlock) :
    List.Forall₂ (fun x' x => Twin s' s x'.1 x.1 ∧ Option.Rel (Twin s' s) x'.2 x.2)
      (received k s'.root) (received k s.root) := by
  let w : Search (Option Tree) := ⟨receiver, fun _ _ => .enter, fun _ t => t.is k⟩
  have hfollows : Search.Follows True s' s (Option.Rel (Twin s' s)) w w :=
    { silent' := fun _ _ => Tree.is_of_isSilent hk
      silent := fun _ _ => Tree.is_of_isSilent hk
      counts_eq := fun _ ht => ht.is_eq k
      visit_eq := fun _ _ => rfl
      down := fun houter ht _ hrole => rel_receiver houter ht hrole
      block := fun {c' c t' t u' u} _ ht hbody hpart => by
        -- Neither a branch nor a loop hands on what receives its value, and neither does a block.
        have howner : t.isEnclosing := Tree.isEnclosing_of_isOwner
          (Tree.body?_cases (Tree.body?_of_bareBody? hbody)).1
        have hblock : u'.isEnclosing := by
          rw [Tree.isEnclosing, (Tree.uncommented_of_isBlockOfOne (hpart.block hbody)).1]
        refine ⟨fun _ => rfl, ?_⟩
        show Option.Rel _ (receiver u' _ _) (receiver t c u)
        rw [receiver_of_isEnclosing howner, receiver_of_isEnclosing hblock]
        exact .none }
  exact (hfollows.thins .none h.twin_root).forall₂ trivial

/-! ### Flows -/

/-- **The flow of the normal form is that of the source, in normal form**, if the texts that are
compared are the same. -/
theorem twins_of (h : s'.Bracing s) (registry : Registry) (config : Config)
    (hcompared : ∀ t ∈ (Flow.of s registry config).compared, t.isVerbatim) :
    Flow.Twins (∀ t ∈ (Flow.of s registry config).receivers, t.isVerbatim)
      (Flow.of s' registry config) (Flow.of s registry config) := by
  have himports := importsOf_twin h
  refine ⟨h, himports, ?_, ?_, rfl⟩
  · unfold Flow.of
    rw [himports]
    set bases := baseNames config (importsOf s)
    refine List.rel_filterMap (R := fun t' t => Option.Rel (FlowClass.Twins s' s)
      (flowClassOf? s' bases t') (flowClassOf? s bases t)) (fun _ _ hc => hc) ?_
    refine (h.twin_root.forall₂_nodes (by decide)).imp_of_mem fun t' t hmem ht => ?_
    refine rel_flowClassOf?_twin bases ht (List.mem_filter.1 hmem).2 (fun base hbase => ?_)
      fun hsome m hm name hname => ?_
    · exact hcompared base (List.mem_append_left _ (List.mem_filterMap.2 ⟨t, hmem, hbase⟩))
    · obtain ⟨c, hc⟩ := Option.isSome_iff_exists.1 hsome
      have hnode : c.node = t := node_of_flowClassOf? hc
      refine hcompared name (List.mem_append_right _ (List.mem_flatMap.2
        ⟨c, List.mem_filterMap.2 ⟨t, hmem, hc⟩, List.mem_filterMap.2 ⟨m, ?_, hname⟩⟩))
      rwa [hnode]
  · unfold Flow.of
    rw [himports]
    refine List.rel_filterMap (R := fun n' n => Option.Rel (Construction.Twins _ s' s)
      (constructionOf? s' (importsOf s) registry config n'.1 n'.2)
      (constructionOf? s (importsOf s) registry config n.1 n.2)) (fun _ _ hn => hn) ?_
    refine (forall₂_received h (by decide)).imp_of_mem fun n' n hmem hn => ?_
    refine rel_constructionOf?_twin _ registry config hn.1 ?_ hn.2 fun hnamed t ht => ?_
    · exact (List.mem_filter.1 hmem).2
    · exact hnamed t (List.mem_filterMap.2 ⟨n, hmem, ht⟩)

end Flow

end FlowAnalysis
