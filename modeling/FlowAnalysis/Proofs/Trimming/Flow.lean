import FlowAnalysis.Proofs.Related
import FlowAnalysis.Proofs.Trimming.Arguments
import FlowAnalysis.Proofs.Trimming.Harmless

/-!
# Flows of trimmed sources

The flow of a trimmed source has the classes, the methods and the constructions of the flow of the
source, with nodes in the places of their nodes.

## Main definitions

* `Method.Matches`, `FlowClass.Matches`, `Construction.Matches`, `Flow.Matches` — the same parts of
  a trimmed source.

## Main results

* `Flow.matches_of` — **the flow of a trimmed source is the flow of the source, trimmed.**
-/

namespace FlowAnalysis

open Syntax

variable {P : Trimming} {s' s : Source}

/-! ### Parts in trimmed sources -/

/-- The body of a method stands in the place of a body, which keeps its wrapper if it is a
function. -/
def Syntax.Trimming.Body (P : Trimming) (s' s : Source) (v b : Tree) : Prop :=
  ∃ g, P.Part s' s g v b ∧ (P.opens g b → (P.core g b).isFunctionLike = false)

/-- A method of a trimmed source is a method of the source. -/
structure Method.Matches (P : Trimming) (s' s : Source) (m' m : Method) : Prop where
  name : m'.name = m.name
  isStatic : m'.isStatic = m.isStatic
  parameters : List.Forall₂ (P.Matches s' s) m'.parameters m.parameters
  body : Option.Rel (P.Body s' s) m'.body m.body

/-- A field of a trimmed source is a field of the source. -/
structure Field.Matches (P : Trimming) (s' s : Source) (f' f : Field) : Prop where
  name : f'.name = f.name
  value : Option.Rel (fun v c => P.Matches s' s v.bare c.bare) f'.value f.value

/-- A class of a trimmed source is a class of the source. -/
structure FlowClass.Matches (P : Trimming) (s' s : Source) (c' c : FlowClass) : Prop where
  name : c'.name = c.name
  /-- The type arguments, which are looked at as they are written. -/
  typeArguments : Option.Rel (fun a' a => P.Matches s' s a' a ∧ s'.textOf a' = s.textOf a ∧
    ∀ r, a.isClosedAt r) c'.typeArguments c.typeArguments
  methods : List.Forall₂ (Method.Matches P s' s) c'.methods c.methods
  fields : List.Forall₂ (Field.Matches P s' s) c'.fields c.fields

/-- A construction of a trimmed source is a construction of the source. -/
structure Construction.Matches (P : Trimming) (s' s : Source) (c' c : Construction) : Prop where
  className : c'.className = c.className
  arguments : List.Forall₂ (fun a' a => P.Matches s' s a'.bare a.bare) c'.arguments c.arguments

/-- A flow is the flow of a trimmed source. -/
structure Flow.Matches (P : Trimming) (f' f : Flow) : Prop where
  trims : P.Trims f'.source f.source
  flowClasses : List.Forall₂ (FlowClass.Matches P f'.source f.source) f'.flowClasses f.flowClasses
  constructions : List.Forall₂ (Construction.Matches P f'.source f.source) f'.constructions
    f.constructions
  entryMethodName : f'.entryMethodName = f.entryMethodName

namespace Flow

open Trimming

variable {u t : Tree}

/-! ### Imports -/

theorem importOf?_eq (module : String) (h : P.Matches s' s u t) (ht : t.is .importSpecifier) :
    importOf? s' module u = importOf? s module t := by
  have htext : ∀ r, Option.Rel (fun v c => s'.textOf v = s.textOf c) (u.field? r) (t.field? r) :=
    fun r => (h.rel_field? r).imp fun v c hc =>
      congrArg String.ofList (hc.1.chars (by simp [Tree.spells, Tree.isAny, ht]))
  refine (htext .name).map_eq fun name' name hname => ?_
  have halias := htext .alias
  generalize u.field? .alias = local' at halias
  generalize t.field? .alias = local? at halias
  cases halias with
  | none => simp [hname]
  | some hlocal => simp [hname, hlocal]

theorem importsOfStatement_eq (hdeaf : P.Deaf s (·.isAny [.importSpecifier]))
    (h : P.Matches s' s u t) : importsOfStatement s' u = importsOfStatement s t := by
  have hmodule : (u.field? .source).bind s'.stringValue? =
      (t.field? .source).bind s.stringValue? :=
    (h.rel_field?_of_mem (by decide)).bind_eq fun _ _ hs => hs.stringValue?
  unfold importsOfStatement
  rw [hmodule]
  cases (t.field? .source).bind s.stringValue? with
  | none => rfl
  | some module =>
    have hnodes := h.forall₂_nodes (by decide) hdeaf
    simp only [Tree.isAny_singleton] at hnodes
    exact (hnodes.imp_of_mem fun v c hc hmatch =>
      And.intro hmatch (List.mem_filter.1 hc).2).filterMap_eq fun _ _ hc =>
        importOf?_eq module hc.1 hc.2

theorem importsOf_eq (hdeaf : P.Deaf s (·.isAny [.importSpecifier])) (h : P.Trims s' s) :
    importsOf s' = importsOf s :=
  (h.root.forall₂_named_filter (by decide)).flatMap_eq fun _ _ ht =>
    importsOfStatement_eq hdeaf ht.1

/-! ### Classes -/

theorem forall₂_parametersOf (h : P.Matches s' s u t) :
    List.Forall₂ (P.Matches s' s) (parametersOf u) (parametersOf t) := by
  have hlist := (h.rel_field? .parameters).imp fun v c hc =>
    And.intro (hc.1.of_isClosedAt (p := t) (by simp [Tree.isClosedAt, hc.2, closedRoles])) hc.2
  have hparameter := h.rel_field?_of_mem (r := .parameter) (by decide)
  unfold parametersOf
  generalize u.field? .parameters = list' at hlist
  generalize t.field? .parameters = list at hlist
  generalize u.field? .parameter = parameter' at hparameter
  generalize t.field? .parameter = parameter at hparameter
  cases hlist with
  | none =>
    cases hparameter with
    | none => exact .nil
    | some hc => exact .cons hc .nil
  | some hlist =>
    exact hlist.1.forall₂_named_of_isClosedAt fun r => by simp [Tree.isClosedAt, hlist.2]

theorem memberName_eq (h : P.Matches s' s u t) (ht : s'.chars u = s.chars t) :
    memberName s' u = memberName s t := by
  rw [memberName, memberName, h.is_eq, h.stringValue?, Source.textOf, Source.textOf, ht]

theorem isStatic_eq (h : P.Matches s' s u t) : isStatic u = isStatic t :=
  h.any_isToken_children _

theorem rel_functionValue? (h : P.Matches s' s u t) :
    Option.Rel (P.Matches s' s) (functionValue? u) (functionValue? t) :=
  ((h.rel_bare_field? .value).map fun _ _ hv => hv).filter fun _ _ hv => hv.isAny_eq _

theorem rel_body (h : P.Matches s' s u t) (hbody : ∀ b ∈ t.field? .body, P.opens t b →
    (P.core t b).isFunctionLike = false) :
    Option.Rel (P.Body s' s) (u.field? .body) (t.field? .body) :=
  (h.rel_field? .body).imp_of_eq fun _ b hb hc => ⟨t, hc.1, hbody b hb⟩

theorem rel_methodOf? (h : P.Matches s' s u t)
    (hname : ∀ x ∈ P.pairs s'.root s.root, x.2 ∈ t.field? .name → s'.chars x.1 = s.chars x.2)
    (hbody : ∀ g ∈ functionOf? t, ∀ b ∈ g.field? .body, P.opens g b →
      (P.core g b).isFunctionLike = false) :
    Option.Rel (Method.Matches P s' s) (methodOf? s' u) (methodOf? s t) := by
  have hnames := (h.rel_field?_of_mem (r := .name) (by decide)).imp_of_eq fun v c hc hmatch =>
    memberName_eq hmatch (hname _ hmatch.mem hc)
  refine hnames.bind fun name' name hname => ?_
  rw [h.is_eq, h.is_eq]
  unfold functionOf? at hbody
  -- A method has a body of its own, a field that of the function which is its value.
  split
  · next hmethod =>
    rw [if_pos hmethod] at hbody
    exact .some ⟨hname, isStatic_eq h, forall₂_parametersOf h, rel_body h (hbody t rfl)⟩
  · next hmethod =>
    rw [if_neg hmethod] at hbody
    split
    · exact ((rel_functionValue? h).imp_of_eq fun g' g hg hmatch =>
        And.intro hmatch (hbody g hg)).map fun g' g hg =>
          ⟨hname, isStatic_eq h, forall₂_parametersOf hg.1, rel_body hg.1 hg.2⟩
    · exact .none

theorem rel_fieldOf? (h : P.Matches s' s u t)
    (hname : ∀ x ∈ P.pairs s'.root s.root, x.2 ∈ t.field? .name → s'.chars x.1 = s.chars x.2) :
    Option.Rel (Field.Matches P s' s) (fieldOf? s' u) (fieldOf? s t) := by
  unfold fieldOf?
  rw [h.is_eq]
  split
  · exact ((h.rel_field?_of_mem (by decide)).imp_of_eq fun v c hc hmatch =>
      memberName_eq hmatch (hname _ hmatch.mem hc)).map fun _ _ hname =>
        ⟨hname, h.rel_bare_field? .value⟩
  · exact .none

/-- What is an expression is no member of a class. -/
theorem no_member_of_isAny (s : Source) (h : t.isAny expressionKinds) :
    methodOf? s t = none ∧ fieldOf? s t = none := by
  have hmethod : t.is .methodDefinition = false := Tree.is_eq_false_of_isAny (by decide) h
  have hfield : t.is .fieldDefinition = false := Tree.is_eq_false_of_isAny (by decide) h
  constructor
  · rw [methodOf?, hmethod, hfield]
    cases t.field? .name <;> rfl
  · rw [fieldOf?, hfield]
    rfl

theorem rel_extendsClause? (h : P.Matches s' s u t) :
    Option.Rel (P.Matches s' s) (extendsClause? u) (extendsClause? t) :=
  (h.rel_find?_named (by decide)).bind fun _ _ hc =>
    (hc.1.rel_find?_named (by decide)).imp fun _ _ hd => hd.1

theorem rel_typeArguments (h : P.Matches s' s u t) :
    Option.Rel (fun a' a => P.Matches s' s a' a ∧ ∀ r, a.isClosedAt r)
      ((u.field? .typeArguments).or (u.named.find? (·.is .typeArguments)))
      ((t.field? .typeArguments).or (t.named.find? (·.is .typeArguments))) := by
  refine Option.Rel.or ?_ ?_
  · refine (h.rel_field?_of_mem (by decide)).imp_of_eq fun a' a ha hmatch => ⟨hmatch, fun r => ?_⟩
    simp [Tree.isClosedAt, (Tree.field?_eq_some ha).2]
  · refine (h.rel_find?_named (by decide)).imp fun a' a hfound => ⟨hfound.1, fun r => ?_⟩
    simp [Tree.isClosedAt, Tree.isAny, hfound.2]

/-- What is made of the members of a class. -/
theorem forall₂_members {α β : Type} {R : α → β → Prop} {F' : Tree → Option α}
    {F : Tree → Option β} (h : P.Matches s' s u t)
    (ht : t.isAny [.classDeclaration, .classExpression])
    (hexpression : ∀ c, c.isAny expressionKinds → F' c = none ∧ F c = none)
    (hmatches : ∀ v, ∀ c ∈ membersOf t, P.Matches s' s v c → Option.Rel R (F' v) (F c)) :
    List.Forall₂ R ((membersOf u).filterMap F') ((membersOf t).filterMap F) := by
  have hclosed : t.isClosedAt (some .body) := by
    have hkind : t.isAny [.classDeclaration, .classExpression, .interfaceDeclaration] := by
      obtain ⟨k, hk, hlabel⟩ := Tree.isAny_iff.1 ht
      exact Tree.isAny_iff.2 ⟨k, by simp at hk ⊢; tauto, hlabel⟩
    simp [Tree.isClosedAt, hkind]
  have hbody := h.rel_field?_of_isClosedAt hclosed
  unfold membersOf at *
  generalize u.field? .body = body' at hbody
  generalize t.field? .body = body at hbody hmatches
  cases hbody with
  | none => exact .nil
  | some hb => exact hb.forall₂_named_filterMap hexpression fun v c hc => hmatches v c hc

theorem flowClassOf?_eq (s : Source) (bases : List String) (t : Tree) :
    flowClassOf? s bases t = (extendsClause? t).bind fun clause =>
      ((baseName? s clause).filter bases.contains).map fun _ =>
        { name := ((t.field? .name).map s.textOf).getD "(anonymous)"
          node := t
          typeArguments := (clause.field? .typeArguments).or
            (clause.named.find? (·.is .typeArguments))
          methods := (membersOf t).filterMap (methodOf? s)
          fields := (membersOf t).filterMap (fieldOf? s) } := by
  unfold flowClassOf?
  cases extendsClause? t with
  | none => rfl
  | some clause =>
    rw [Option.bind_eq_bind, Option.bind_some, Option.bind_some]
    cases baseName? s clause with
    | none => rfl
    | some base =>
      rw [Option.bind_eq_bind, Option.bind_some, Option.filter_some]
      cases bases.contains base <;> rfl

/-- What is known of a class of the flow: the texts that are read as they are written, and which
bodies are functions. -/
structure Spares (P : Trimming) (s' s : Source) (c : FlowClass) : Prop where
  name : ∀ x ∈ P.pairs s'.root s.root, x.2 ∈ c.node.field? .name → s'.chars x.1 = s.chars x.2
  typeArguments : ∀ x ∈ P.pairs s'.root s.root, x.2 ∈ c.typeArguments →
    s'.chars x.1 = s.chars x.2
  members : ∀ m ∈ membersOf c.node, ∀ x ∈ P.pairs s'.root s.root, x.2 ∈ m.field? .name →
    s'.chars x.1 = s.chars x.2
  bodies : ∀ m ∈ membersOf c.node, ∀ g ∈ functionOf? m, ∀ b ∈ g.field? .body, P.opens g b →
    (P.core g b).isFunctionLike = false

theorem rel_flowClassOf? {bases : List String} (h : P.Matches s' s u t)
    (ht : t.isAny [.classDeclaration, .classExpression])
    (hbase : extended? s' bases u = extended? s bases t)
    (hspares : ∀ c, flowClassOf? s bases t = some c → Spares P s' s c) :
    Option.Rel (FlowClass.Matches P s' s) (flowClassOf? s' bases u) (flowClassOf? s bases t) := by
  have hclause := rel_extendsClause? h
  rw [flowClassOf?_eq] at hspares
  rw [flowClassOf?_eq, flowClassOf?_eq]
  unfold extended? at hbase
  generalize extendsClause? u = clause' at hclause hbase
  generalize extendsClause? t = clause at hclause hbase hspares
  cases hclause with
  | none => exact .none
  | @some clause' clause hclause =>
    rw [Option.bind_some, Option.bind_some] at hbase
    rw [Option.bind_some] at hspares
    rw [Option.bind_some, Option.bind_some, hbase]
    cases hextended : (baseName? s clause).filter bases.contains with
    | none => exact .none
    | some base =>
      rw [hextended] at hspares
      obtain hspares := hspares _ rfl
      have hname : (u.field? .name).map s'.textOf = (t.field? .name).map s.textOf :=
        ((h.rel_field?_of_mem (by decide)).imp_of_eq fun v c hc hmatch =>
          congrArg String.ofList (hspares.name _ hmatch.mem hc)).map_eq fun _ _ hc => hc
      refine .some ⟨congrArg (Option.getD · "(anonymous)") hname, ?_, ?_, ?_⟩
      · exact (rel_typeArguments hclause).imp_of_eq fun a' a ha hmatch =>
          ⟨hmatch.1, congrArg String.ofList (hspares.typeArguments _ hmatch.1.mem ha), hmatch.2⟩
      · exact forall₂_members h ht (fun c hc =>
          ⟨(no_member_of_isAny s' hc).1, (no_member_of_isAny s hc).1⟩) fun v m hm hmatch =>
            rel_methodOf? hmatch (hspares.members m hm) (hspares.bodies m hm)
      · exact forall₂_members h ht (fun c hc =>
          ⟨(no_member_of_isAny s' hc).2, (no_member_of_isAny s hc).2⟩) fun v m hm hmatch =>
            rel_fieldOf? hmatch (hspares.members m hm)

/-! ### Constructions -/

theorem constructed?_eq (imports : List Import) (h : P.Matches s' s u t) :
    constructed? s' imports u = constructed? s imports t := by
  refine (h.rel_bare_field? .constructor).bind_eq fun v c hc => ?_
  rw [hc.is_eq, hc.is_eq]
  split
  · next hname => rw [hc.textOf_of_is hname (by decide)]
  · split
    · exact hc.rel_property.map_eq fun _ _ hp =>
        congrArg (fun name => (name, (none : Option String))) hp.2
    · rfl

theorem rel_constructionOf? (imports : List Import) (registry : Registry) (config : Config)
    (h : P.Matches s' s u t) (target' target : Option Tree) :
    Option.Rel (Construction.Matches P s' s) (constructionOf? s' imports registry config u target')
      (constructionOf? s imports registry config t target) := by
  unfold constructionOf?
  rw [constructed?_eq imports h]
  cases constructed? s imports t with
  | none => exact .none
  | some found =>
    obtain ⟨className, module⟩ := found
    rw [Option.bind_eq_bind, Option.bind_eq_bind, Option.bind_some, Option.bind_some]
    dsimp only
    cases isBubble registry config className module with
    | true => exact .some ⟨rfl, h.forall₂_bare_arguments⟩
    | false => exact .none

theorem map_fst_received (kind : Kind) (root : Tree) :
    (received kind root).map Prod.fst = root.nodes.filter (·.isAny [kind]) := by
  rw [received, ← Tree.walkWith_fst receiver none root, List.filter_map]
  simp only [Tree.isAny_singleton]
  rfl

/-! ### Flows -/

variable {registry : Registry} {config : Config}

/-- A harmless trimming spares what is read of the classes of a flow as it is written. -/
theorem spares_of_harmless {f' f : Flow} (hP : P.Harmless config f' f) {c : FlowClass}
    (hc : c ∈ f.flowClasses) : Spares P f'.source f.source c where
  name x hx hname := hP.quoted x hx (mem_quoted_of_name hc hname)
  typeArguments x hx ha := hP.quoted x hx (mem_quoted_of_typeArguments hc ha)
  members m hm x hx hname := hP.names x hx c hc m hm hname
  bodies m hm := hP.bodies c hc m hm

/-- **The flow of a trimmed source is the flow of the source, trimmed.** -/
theorem matches_of (h : P.Trims s' s)
    (hP : P.Harmless config (Flow.of s' registry config) (Flow.of s registry config)) :
    Flow.Matches P (Flow.of s' registry config) (Flow.of s registry config) := by
  have himports : importsOf s' = importsOf s := importsOf_eq (hP.deaf_isAny (by decide)) h
  have hclasses : List.Forall₂ (P.Matches s' s)
      (s'.root.nodes.filter (·.isAny [.classDeclaration, .classExpression]))
      (s.root.nodes.filter (·.isAny [.classDeclaration, .classExpression])) :=
    h.root.forall₂_nodes (by decide) (hP.deaf_isAny (by decide))
  have hconstructions : List.Forall₂ (P.Matches s' s)
      (s'.root.nodes.filter (·.isAny [.newExpression]))
      (s.root.nodes.filter (·.isAny [.newExpression])) :=
    h.root.forall₂_nodes (by decide) (hP.deaf_isAny (by decide))
  refine ⟨h, ?_, ?_, rfl⟩
  · unfold Flow.of
    rw [himports]
    refine List.rel_filterMap (R := fun u t => Option.Rel (FlowClass.Matches P s' s)
      (flowClassOf? s' (baseNames config (importsOf s)) u)
      (flowClassOf? s (baseNames config (importsOf s)) t)) (fun _ _ hc => hc)
      (hclasses.imp_of_mem fun u t ht hmatch => ?_)
    have hkind := (List.mem_filter.1 ht).2
    exact rel_flowClassOf? hmatch hkind (hP.bases _ hmatch.mem hkind) fun c hc =>
      spares_of_harmless hP (List.mem_filterMap.2 ⟨t, ht, hc⟩)
  · -- What receives a construction plays no part in the checks, so only the nodes are compared.
    unfold Flow.of
    rw [himports]
    refine List.rel_filterMap (R := fun n' n => P.Matches s' s n'.1 n.1)
      (fun _ _ hn => rel_constructionOf? _ registry config hn _ _) ?_
    rwa [← map_fst_received, ← map_fst_received, List.forall₂_map_left_iff,
      List.forall₂_map_right_iff] at hconstructions

end Flow

end FlowAnalysis
