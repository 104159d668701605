import FlowAnalysis.Flow.Basic
import FlowAnalysis.Proofs.Reordering.Slots

/-!
# Flows of sources with their declarations in another order

Such sources import the same names.  Their flow classes come in another order, since one of them may
stand inside a declaration that is moved, but the methods of a class keep their order, and they say
the same beside the declarations in them.

## Main definitions

* `Firm` — nodes that say the same beside declarations, and have no declarations as children.
* `Method.Fits`, `FlowClass.Fits`, `Flow.Fits` — the same parts, beside declarations.

## Main results

* `Syntax.Source.Reorders.importsOf_eq` — the imports.
* `Syntax.Source.Reorders.fits_of` — **the entry methods say the same beside declarations.**
-/

namespace FlowAnalysis

open Syntax

variable {s' s : Source} {t' t : Tree}

/-! ### Nodes without declarations as children -/

/-- Two nodes say the same beside declarations; all in all if their children may be statements. -/
structure Firm (s' s : Source) (t' t : Tree) : Prop where
  fits : Fits s' s t' t
  alike : t.isAny statementHolders → Alike s' s t' t

theorem Alike.firm (h : Alike s' s t' t) : Firm s' s t' t := ⟨h.fits, fun _ => h⟩

namespace Firm

variable (h : Firm s' s t' t)

include h

theorem rel_field? (r : Role) : Option.Rel (Fits s' s) (t'.field? r) (t.field? r) := by
  cases hholder : t.isAny statementHolders with
  | true => exact ((h.alike hholder).field? r).imp fun _ _ hc => hc.fits
  | false => exact h.fits.rel_field? hholder r

theorem rel_type : Option.Rel (Alike s' s) (t'.field? .type) (t.field? .type) := by
  cases hholder : t.isAny statementHolders with
  | true => exact (h.alike hholder).field? .type
  | false => exact h.fits.rel_type hholder

end Firm

/-! ### Parts -/

/-- Two methods say the same beside the declarations in them. -/
structure Method.Fits (s' s : Source) (m' m : Method) : Prop where
  name : m'.name = m.name
  isStatic : m'.isStatic = m.isStatic
  parameters : List.Forall₂ (Firm s' s) m'.parameters m.parameters
  body : Option.Rel (FlowAnalysis.Fits s' s) m'.body m.body

/-- The methods of two classes say the same beside the declarations in them. -/
def FlowClass.Fits (s' s : Source) (c' c : FlowClass) : Prop :=
  List.Forall₂ (Method.Fits s' s) c'.methods c.methods

/-- Two flows have the same declarations, and entry methods that say the same beside them. -/
structure Flow.Fits (f' f : Flow) : Prop where
  reorders : f'.source.Reorders f.source
  entryMethod : Option.Rel (Method.Fits f'.source f.source) f'.entryMethod? f.entryMethod?

/-! ### Imports -/

theorem Alike.importsOfStatement (h : Alike s' s t' t) :
    Flow.importsOfStatement s' t' = Flow.importsOfStatement s t := by
  have hmodule : (t'.field? .source).bind s'.stringValue? =
      (t.field? .source).bind s.stringValue? :=
    (h.field? .source).bind_eq fun _ _ hc => hc.stringValue?
  unfold Flow.importsOfStatement
  rw [hmodule]
  cases (t.field? .source).bind s.stringValue? with
  | none => rfl
  | some module =>
    have hspecifiers := h.forall₂_nodes.filter fun n' n hn =>
      Tree.is_eq_of_label hn.label .importSpecifier
    refine hspecifiers.filterMap_eq fun n' n hn => ?_
    refine (hn.field? .name).map_eq fun name' name hname => ?_
    have hlocal : s'.textOf ((n'.field? .alias).getD name') =
        s.textOf ((n.field? .alias).getD name) := by
      have hother := hn.field? .alias
      generalize n'.field? .alias = other', n.field? .alias = other at hother
      cases hother with
      | none => exact hname.textOf
      | some ho => exact ho.textOf
    rw [hlocal, hname.textOf]

namespace Syntax.Source.Reorders

/-- Such sources import the same names. -/
theorem importsOf_eq (h : s'.Reorders s) : Flow.importsOf s' = Flow.importsOf s := by
  have hstatements := fits_filter h.fits_root.forall₂_named_slots [.importStatement] (by decide)
  simp only [Tree.isAny_singleton] at hstatements
  have halike : List.Forall₂ (Alike s' s) (s'.root.named.filter (·.is .importStatement))
      (s.root.named.filter (·.is .importStatement)) :=
    hstatements.imp_of_mem fun t' t ht hfits => hfits.alike (by decide) (List.mem_filter.1 ht).2
  exact halike.flatMap_eq fun _ _ ht => ht.importsOfStatement

end Syntax.Source.Reorders

/-! ### Methods -/

namespace Flow

/-- The kinds of members of a class that may be methods. -/
def memberKinds : List Kind := [.methodDefinition, .fieldDefinition]

/-- Other members are no methods. -/
theorem methodOf?_eq_none (s : Source) (h : t.isAny memberKinds = false) :
    methodOf? s t = none := by
  obtain ⟨hmethod, hfield⟩ : t.is .methodDefinition = false ∧ t.is .fieldDefinition = false := by
    simpa [memberKinds, Tree.isAny] using h
  unfold methodOf?
  rw [hmethod, hfield]
  cases t.field? .name <;> rfl

theorem isStatic_eq_of_slots (h : List.Forall₂ (Slot s' s) t'.children t.children) :
    isStatic t' = isStatic t := by
  refine h.any_eq fun c' c hc => ?_
  have htoken : ∀ c, isTypeDeclaration c → c.isToken "static" = false := by
    intro c hc
    obtain ⟨k, _, hlabel⟩ := Tree.isAny_iff.1 hc
    rw [Tree.isToken, hlabel]
    rfl
  cases hc with
  | blank hdeclaration' hdeclaration _ => rw [htoken c' hdeclaration', htoken c hdeclaration]
  | fits hfits => rw [Tree.isToken, Tree.isToken, hfits.label]

end Flow

namespace Alike

variable (h : Alike s' s t' t)

include h

theorem memberName_eq : Flow.memberName s' t' = Flow.memberName s t := by
  rw [Flow.memberName, Flow.memberName, Tree.is_eq_of_label h.label, h.stringValue?, h.textOf]

theorem rel_baseName? : Option.Rel (· = ·) (Flow.baseName? s' t') (Flow.baseName? s t) := by
  refine ((h.field? .value).or h.firstNamed?).bind fun base' base hbase => ?_
  rw [Tree.is_eq_of_label hbase.label]
  split
  · exact (hbase.field? .property).map fun _ _ hp => hp.textOf
  · exact .some hbase.textOf

end Alike

namespace Fits

variable (h : Fits s' s t' t)

include h

/-- The parameters of a function, whose children are no statements. -/
theorem forall₂_parametersOf (hholder : t.isAny statementHolders = false) :
    List.Forall₂ (Firm s' s) (Flow.parametersOf t') (Flow.parametersOf t) := by
  have hparameter : Option.Rel (Firm s' s) (t'.field? .parameter) (t.field? .parameter) :=
    (h.rel_field?_held hholder .parameter).imp_of_eq fun c' c hc hfits =>
      ⟨hfits.1, fun hc' => hfits.2 (by simp [isHeld, hc', (Tree.field?_eq_some hc).2])⟩
  have hparameters : Option.Rel (fun c' c => Firm s' s c' c ∧ c.role = some .parameters)
      (t'.field? .parameters) (t.field? .parameters) :=
    (h.rel_field?_held hholder .parameters).imp_of_eq fun c' c hc hfits => by
      have hrole := (Tree.field?_eq_some hc).2
      exact ⟨⟨hfits.1, fun hc' => hfits.2 (by simp [isHeld, hc', hrole])⟩, hrole⟩
  unfold Flow.parametersOf
  generalize t'.field? .parameters = list', t.field? .parameters = list at hparameters
  cases hparameters with
  | none =>
    generalize t'.field? .parameter = p', t.field? .parameter = p at hparameter
    cases hparameter with
    | none => exact .nil
    | some hp => exact .cons hp .nil
  | @some list' list hlist =>
    obtain ⟨hfirm, hrole⟩ := hlist
    cases hlist : list.isAny statementHolders with
    | true => exact (hfirm.alike hlist).named.imp fun _ _ hc => hc.firm
    | false =>
      refine List.Forall₂.filter ((hfirm.fits.forall₂_children hlist).imp fun c' c hc => ?_) ?_
      · exact ⟨hc.1, fun hc' => hc.2 (by simp [isHeld, hc', hrole])⟩
      · exact fun _ _ hc => (Slot.fits hc.fits).isNamed_eq

theorem rel_functionValue? (hholder : t.isAny statementHolders = false) :
    Option.Rel (fun v' v => Fits s' s v' v ∧ v.isAny [.arrowFunction, .functionExpression])
      (Flow.functionValue? t') (Flow.functionValue? t) := by
  have hvalue : Option.Rel (Fits s' s) (Flow.functionValue? t') (Flow.functionValue? t) :=
    ((h.rel_field? hholder .value).map fun _ _ hv => hv.bare).filter
      fun _ _ hv => Tree.isAny_eq_of_label hv.label _
  refine hvalue.imp_of_eq fun v' v hv hfits => ⟨hfits, ?_⟩
  exact (Option.filter_eq_some_iff.1 hv).2

/-- A method says the same beside declarations. -/
theorem rel_methodOf? :
    Option.Rel (Method.Fits s' s) (Flow.methodOf? s' t') (Flow.methodOf? s t) := by
  cases hmember : t.isAny Flow.memberKinds with
  | false =>
    rw [Flow.methodOf?_eq_none s hmember, Flow.methodOf?_eq_none s'
      ((Tree.isAny_eq_of_label h.label _).trans hmember)]
    exact .none
  | true =>
    have hholder : t.isAny statementHolders = false :=
      isAny_eq_false_of_disjoint (by decide) hmember
    have hvariable : t.isAny [.variableDeclarator] = false :=
      isAny_eq_false_of_disjoint (by decide) hmember
    have hstatic := Flow.isStatic_eq_of_slots h.forall₂_slots
    unfold Flow.methodOf?
    refine (h.rel_name hholder (Tree.isAny_singleton t _ ▸ hvariable)).bind
      fun name' name hname => ?_
    rw [Tree.is_eq_of_label h.label, Tree.is_eq_of_label h.label]
    split
    · exact .some ⟨hname.memberName_eq, hstatic, h.forall₂_parametersOf hholder,
        h.rel_field? hholder .body⟩
    · split
      · refine (h.rel_functionValue? hholder).map fun v' v hv => ?_
        have hplain : v.isAny statementHolders = false :=
          isAny_eq_false_of_disjoint (by decide) hv.2
        exact ⟨hname.memberName_eq, hstatic, hv.1.forall₂_parametersOf hplain,
          hv.1.rel_field? hplain .body⟩
      · exact .none

end Fits

/-- A declaration in place of a member is no method, whichever it is. -/
theorem Slot.rel_methodOf? (h : Slot s' s t' t) :
    Option.Rel (Method.Fits s' s) (Flow.methodOf? s' t') (Flow.methodOf? s t) := by
  cases h with
  | blank hdeclaration' hdeclaration _ =>
    have hmember : ∀ t, isTypeDeclaration t → t.isAny Flow.memberKinds = false := fun t ht =>
      isAny_of_isTypeDeclaration (by decide) ht
    rw [Flow.methodOf?_eq_none s' (hmember t' hdeclaration'),
      Flow.methodOf?_eq_none s (hmember t hdeclaration)]
    exact .none
  | fits hfits => exact hfits.rel_methodOf?

/-! ### Classes -/

/-- The kinds of classes. -/
def classKinds : List Kind := [.classDeclaration, .classExpression]

namespace Fits

variable (h : Fits s' s t' t)

include h

theorem rel_find?_named (hholder : t.isAny statementHolders = false) (k : Kind) :
    Option.Rel (fun c' c => Fits s' s c' c ∧ c.is k) (t'.named.find? (·.is k))
      (t.named.find? (·.is k)) := by
  refine ((h.forall₂_named hholder).find? fun _ _ hc => Tree.is_eq_of_label hc.label k).imp_of_eq
    fun c' c hc hfits => ⟨hfits, ?_⟩
  simpa using List.find?_some hc

/-- The clause that names the base of a class is a matter of its text. -/
theorem rel_extendsClause? (hholder : t.isAny statementHolders = false) :
    Option.Rel (Alike s' s) (Flow.extendsClause? t') (Flow.extendsClause? t) := by
  refine (h.rel_find?_named hholder _).bind fun heritage' heritage hheritage => ?_
  have hplain := isAny_statementHolders (by decide) hheritage.2
  exact (hheritage.1.rel_find?_named hplain _).imp fun _ _ hc => hc.1.alike (by decide) hc.2

theorem rel_flowClassOf? (bases : List String) (hclass : t.isAny classKinds) :
    Option.Rel (FlowClass.Fits s' s) (Flow.flowClassOf? s' bases t')
      (Flow.flowClassOf? s bases t) := by
  have hholder : t.isAny statementHolders = false := isAny_eq_false_of_disjoint (by decide) hclass
  unfold Flow.flowClassOf?
  refine (h.rel_extendsClause? hholder).bind fun clause' clause hclause => ?_
  refine hclause.rel_baseName?.bind fun base' base hbase => ?_
  obtain rfl : base' = base := hbase
  have hmembers : List.Forall₂ (Slot s' s) (((t'.field? .body).map Tree.named).getD [])
      (((t.field? .body).map Tree.named).getD []) :=
    ((h.rel_field? hholder .body).map fun _ _ hbody => hbody.forall₂_named_slots).forall₂_getD
  cases bases.contains base' with
  | false => exact .none
  | true => exact .some (List.rel_filterMap (fun _ _ hm => hm.rel_methodOf?) hmembers)

end Fits

/-! ### Flows -/

namespace Syntax.Source.Reorders

variable (h : s'.Reorders s) (registry : Registry) (config : Config)

include h

theorem matched_flowClasses : (Flow.of s' registry config).flowClasses.Matched
    (FlowClass.Fits s' s) (Flow.of s registry config).flowClasses := by
  have himports := h.importsOf_eq
  have hclasses := (h.matched_nodes classKinds (by decide)).mem
  show List.Matched _ (List.filterMap _ _) (List.filterMap _ _)
  rw [himports]
  exact hclasses.filterMap fun _ _ ht => ht.2.rel_flowClassOf? _ (List.mem_filter.1 ht.1).2

theorem rel_flowClass? : Option.Rel (FlowClass.Fits s' s) (Flow.of s' registry config).flowClass?
    (Flow.of s registry config).flowClass? := by
  have hclasses := h.matched_flowClasses registry config
  have hlength := hclasses.length_eq
  unfold Flow.flowClass?
  generalize (Flow.of s' registry config).flowClasses = cs',
    (Flow.of s registry config).flowClasses = cs at hclasses hlength
  match cs', cs with
  | [], [] | _ :: _ :: _, _ :: _ :: _ => exact .none
  | [_], [_] => exact .some hclasses.singleton
  | [], _ :: _ | _ :: _, [] | [_], _ :: _ :: _ | _ :: _ :: _, [_] => simp at hlength

/-- **The entry methods say the same beside declarations**, or both flows lack one. -/
theorem fits_of : (Flow.of s' registry config).Fits (Flow.of s registry config) where
  reorders := h
  entryMethod := (h.rel_flowClass? registry config).bind fun _ _ hclass =>
    hclass.find? fun _ _ hm => by rw [hm.name, hm.isStatic]; rfl

end Syntax.Source.Reorders

end FlowAnalysis
