import FlowAnalysis.Proofs.Keyed
import FlowAnalysis.Proofs.Types.Shapes
import FlowAnalysis.Types.Schema

/-!
# Aliases in schemas

A type that is written out is rendered by its form, a name by the shape of what it stands for.
The two agree for objects, for names and for types whose arguments are objects; a text, a list or a
union of texts has no shape, so that an alias of it is rendered as an object of which nothing is
known.

## Main definitions

* `TypeExpr.subst`, `TypeExpr.replace` — a type with names replaced by what they stand for.
* `FieldShape.Retyped` — two properties that differ at most in their types.
* `TypeEnv.rendersShape` — a type is rendered by its shape.

## Main results

* `TypeEnv.alike_shapeOf_subst` — the shape of a type in which names have been replaced.
* `TypeEnv.schemaOf_replace_iff` — **a name may be replaced by what it stands for, wherever it
  occurs, exactly if that is rendered by its shape.**
-/

namespace FlowAnalysis

/-- Two properties that differ at most in their types, which are related. -/
structure FieldShape.Retyped (R : TypeExpr → TypeExpr → Prop) (f g : FieldShape) : Prop where
  optional : f.optional = g.optional
  builtin : f.builtin = g.builtin
  doc : f.doc = g.doc
  type : Option.Rel R f.type g.type

namespace FieldShape

variable {R : TypeExpr → TypeExpr → Prop}

theorem Retyped.refl (hR : ∀ t, R t t) (f : FieldShape) : f.Retyped R f :=
  ⟨rfl, rfl, rfl, by cases f.type <;> simp [hR]⟩

theorem keepsOptional_retyped : Shape.KeepsOptional (Retyped R) :=
  fun _ _ h _ => ⟨rfl, h.builtin, h.doc, h.type⟩

end FieldShape

/-! ### Replacing names -/

namespace TypeExpr

mutual

/-- A type with its names replaced.  The names of types with arguments stay. -/
def subst (σ : String → TypeExpr) : TypeExpr → TypeExpr
  | named name => σ name
  | generic name arguments => generic name (substAll σ arguments)
  | object members => object (substMembers σ members)
  | intersection parts => intersection (substAll σ parts)
  | union parts => union (substAll σ parts)
  | array items => array (subst σ items)
  | wrapped inner => wrapped (subst σ inner)
  | builtin name => builtin name
  | literal value => literal value
  | other => other

/-- Several types with their names replaced. -/
def substAll (σ : String → TypeExpr) : List TypeExpr → List TypeExpr
  | [] => []
  | t :: ts => subst σ t :: substAll σ ts

/-- The type of a property with its names replaced. -/
def substType (σ : String → TypeExpr) : Option TypeExpr → Option TypeExpr
  | none => none
  | some t => some (subst σ t)

/-- A member with the names in its type replaced. -/
def substMember (σ : String → TypeExpr) : Member → Member
  | .property name optional type doc => .property name optional (substType σ type) doc
  | .index => .index

/-- Several members with the names in their types replaced. -/
def substMembers (σ : String → TypeExpr) : List Member → List Member
  | [] => []
  | m :: ms => substMember σ m :: substMembers σ ms

end

/-- A type with one name replaced, wherever it occurs. -/
def replace (x : TypeExpr) (name : String) (t : TypeExpr) : TypeExpr :=
  x.subst (Function.update named name t)

variable {σ : String → TypeExpr}

theorem substAll_eq (ts : List TypeExpr) : substAll σ ts = ts.map (subst σ) := by
  induction ts with
  | nil => rfl
  | cons t ts ih => rw [substAll, ih, List.map_cons]

theorem substMembers_eq (ms : List Member) : substMembers σ ms = ms.map (substMember σ) := by
  induction ms with
  | nil => rfl
  | cons m ms ih => rw [substMembers, ih, List.map_cons]

theorem isNullish_subst (h : ∀ name, (σ name).isNullish = false) (t : TypeExpr) :
    (t.subst σ).isNullish = t.isNullish := by
  cases t with
  | named name =>
    rw [subst, h]
    rfl
  | _ => simp [subst, isNullish]

end TypeExpr

namespace TypeEnv

open TypeExpr

variable {env : TypeEnv} {σ : String → TypeExpr}

/-- A type, and the same type with its names replaced. -/
def Replaced (σ : String → TypeExpr) (t' t : TypeExpr) : Prop := t' = t ∨ t' = t.subst σ

theorem alike_shapeOfMembers_subst (builtin : Bool) (members : List Member) :
    (shapeOfMembers builtin (substMembers σ members)).Alike (FieldShape.Retyped (Replaced σ))
      (shapeOfMembers builtin members) := by
  rw [substMembers_eq]
  refine Shape.Alike.members (fun m s s' hs => ?_) members
  cases m with
  | property name optional type doc =>
    refine ⟨hs.isOpen, hs.fields.put name ⟨rfl, rfl, rfl, ?_⟩⟩
    cases type with
    | none => exact .none
    | some t => exact .some (.inr rfl)
  | index => exact ⟨rfl, hs.fields⟩

/-- Names replaced by types of the same shapes change at most the types of properties, in which they
are replaced too. -/
theorem alike_shapeOf_subst (hshape : ∀ name, env.shapeOf (σ name) = env.shapeOfName name)
    (hnullish : ∀ name, (σ name).isNullish = false) (x : TypeExpr) :
    (env.shapeOf (x.subst σ)).Alike (FieldShape.Retyped (Replaced σ)) (env.shapeOf x) := by
  have hrefl : ∀ s : Shape, s.Alike (FieldShape.Retyped (Replaced σ)) s :=
    Shape.Alike.refl (.refl fun _ => .inl rfl)
  unfold shapeOf at hshape ⊢
  induction x using TypeExpr.induction with
  | named name =>
    rw [subst, hshape, shapeWith]
    exact hrefl _
  | generic name arguments ih =>
    rw [subst, substAll_eq, shapeWith, shapeWith]
    cases hm : modifier? name with
    | none => exact hrefl _
    | some modify =>
      cases arguments with
      | nil => exact hrefl _
      | cons first rest =>
        exact (ih first List.mem_cons_self).modify FieldShape.keepsOptional_retyped hm
  | object members =>
    rw [subst, shapeWith, shapeWith]
    exact alike_shapeOfMembers_subst false members
  | intersection parts ih =>
    rw [subst, substAll_eq, shapeWith, shapeWith, shapesWith_eq, shapesWith_eq, List.map_map]
    exact .mergeAll_map ih
  | union parts ih =>
    rw [subst, substAll_eq, shapeWith, shapeWith, shapesOfPresent_eq, shapesOfPresent_eq,
      List.filter_map, List.map_map]
    simp only [Function.comp_def, isNullish_subst hnullish]
    exact .common_map fun p hp => ih p (List.mem_of_mem_filter hp)
  | wrapped inner ih =>
    rw [subst, shapeWith, shapeWith]
    exact ih
  | _ =>
    rw [subst]
    exact hrefl _

end TypeEnv

/-! ### Schemas of shapes -/

namespace Schema

variable {R : TypeExpr → TypeExpr → Prop} {render : TypeExpr → Json}

theorem ofFields_congr (hR : ∀ t t', R t t' → render t = render t')
    {fields fields' : List (String × FieldShape)}
    (h : FieldsAlike (FieldShape.Retyped R) fields fields') :
    ofFields render fields = ofFields render fields' := by
  have hproperties :
      (fields.map fun e => (e.1, describe e.2.doc ((e.2.type.map render).getD any))) =
      fields'.map fun e => (e.1, describe e.2.doc ((e.2.type.map render).getD any)) := by
    induction h with
    | nil => rfl
    | @cons e e' _ _ he _ ih =>
      have htype : e.2.type.map render = e'.2.type.map render := by
        obtain ⟨key, optional, type, builtin, doc⟩ := e
        obtain ⟨key', optional', type', builtin', doc'⟩ := e'
        cases he.2.type with
        | none => rfl
        | some h => exact congrArg some (hR _ _ h)
      rw [List.map_cons, List.map_cons, ih, he.1, he.2.doc, htype]
  have hrequired : (fields.filter fun e => !e.2.optional).map (·.1) =
      (fields'.filter fun e => !e.2.optional).map (·.1) := by
    clear hproperties
    induction h with
    | nil => rfl
    | @cons e e' _ _ he _ ih =>
      rw [List.filter_cons, List.filter_cons, he.2.optional]
      split
      · rw [List.map_cons, List.map_cons, ih, he.1]
      · exact ih
  rw [ofFields, ofFields, hproperties, hrequired]

/-- The schema of a shape depends on the types of its properties only through their schemas. -/
theorem ofShape_congr (hR : ∀ t t', R t t' → render t = render t') {s s' : Shape}
    (h : s.Alike (FieldShape.Retyped R) s') :
    ofShape render s = ofShape render s' := by
  rw [ofShape, ofShape, h.isOpen, h.fields.isEmpty_eq, ofFields_congr hR h.fields]

/-- What is said of all values of an object whose properties are listed: an entry of its schema. -/
def entry? (key : String) : Json → Option Json
  | .object entries => Keyed.get? entries key
  | _ => none

/-- An entry of a schema of several. -/
theorem entry?_of (key : String) (entries : List (String × Json)) : entry? key (of entries) =
    entries.foldl (fun found e => if e.1 = key then some e.2 else found) none := by
  have hsorted : ∀ m : List (String × Json),
      Keyed.get? (entries.foldl (fun m e => Keyed.insert Keyed.stringLt e.1 e.2 m) m) key =
        entries.foldl (fun found e => if e.1 = key then some e.2 else found)
          (Keyed.get? m key) := by
    induction entries with
    | nil => exact fun _ => rfl
    | cons e rest ih =>
      intro m
      rw [List.foldl_cons, List.foldl_cons, ih, Keyed.get?_insert]
  exact hsorted []

/-- The schema of a shape says that its values are objects. -/
theorem entry?_type_ofShape (render : TypeExpr → Json) (s : Shape) :
    entry? "type" (ofShape render s) = some (.string "object") := by
  unfold ofShape
  split
  · rfl
  · unfold ofFields
    dsimp only
    split <;> simp [entry?_of]

/-- The schema of a shape says nothing but what its properties are. -/
theorem entry?_ofShape_eq_none {key : String} (hkey : key ∉ ["type", "properties", "required"])
    (render : TypeExpr → Json) (s : Shape) : entry? key (ofShape render s) = none := by
  simp only [List.mem_cons, List.not_mem_nil, or_false, not_or] at hkey
  obtain ⟨htype, hproperties, hrequired⟩ := hkey
  unfold ofShape
  split
  · simp [ofType, entry?, Keyed.get?, Ne.symm htype]
  · unfold ofFields
    dsimp only
    split <;> simp [entry?_of, Ne.symm htype, Ne.symm hproperties, Ne.symm hrequired]

end Schema

/-! ### Schemas of types -/

namespace TypeExpr

theorem alternativesOf_eq (ts : List TypeExpr) : alternativesOf ts = ts.flatMap alternatives := by
  induction ts with
  | nil => rfl
  | cons t ts ih => rw [alternativesOf, ih, List.flatMap_cons]

end TypeExpr

namespace TypeEnv

open TypeExpr

variable {env : TypeEnv} {σ : String → TypeExpr}

/-- Whether a type is rendered by its shape.  Lists and records are rendered by their arguments,
texts, literals and unions by what they are; a name that is not declared has no schema, and `Date`
has one of its own. -/
def rendersShape (env : TypeEnv) (t : TypeExpr) : Bool :=
  match t.bare with
  | .builtin name => name = "object"
  | .named name => name ≠ "Date" && env.isKnown name
  | .generic name arguments =>
    match name, arguments with
    | "Array", [_] | "ReadonlyArray", [_] | "Record", [_, _] => false
    | _, _ => if (modifier? name).isSome then arguments.length = 1 else env.isKnown name
  | .object _ => true
  | _ => false

theorem shapeOf_bare (t : TypeExpr) : env.shapeOf t.bare = env.shapeOf t := by
  induction t using TypeExpr.induction with
  | wrapped inner ih =>
    rw [bare, ih, shapeOf, shapeOf, shapeWith]
  | _ => rfl

theorem heads_bare (t : TypeExpr) : t.bare.heads = t.heads := by
  induction t using TypeExpr.induction with
  | wrapped inner ih => rw [bare, ih, heads]
  | _ => rfl

theorem schemaOf_bare (n : Nat) (t : TypeExpr) : env.schemaOf n t.bare = env.schemaOf n t := by
  have hbare : t.bare.bare = t.bare := by
    induction t using TypeExpr.induction with
    | wrapped inner ih => exact ih
    | _ => rfl
  cases n with
  | zero => rfl
  | succ n => rw [schemaOf, schemaOf, hbare]

theorem eq_of_isSome_modifier? {name : String} (h : (modifier? name).isSome) :
    name = "Partial" ∨ name = "Required" ∨ name = "Readonly" := by
  unfold modifier? at h
  split at h
  · exact .inl rfl
  · exact .inr (.inl rfl)
  · exact .inr (.inr rfl)
  · cases h

/-- A type that is rendered by its shape is. -/
theorem schemaOf_of_rendersShape {t : TypeExpr} (h : env.rendersShape t) (n : Nat) :
    env.schemaOf (n + 1) t = Schema.ofShape (env.schemaOf n) (env.shapeOf t) := by
  rw [← shapeOf_bare, schemaOf]
  unfold rendersShape at h
  match hb : t.bare with
  | .builtin name =>
    simp only [hb, decide_eq_true_eq] at h
    rw [h]
    rfl
  | .named name =>
    simp only [hb, Bool.and_eq_true, decide_eq_true_eq] at h
    simp only [if_neg h.1, if_pos h.2]
    rfl
  | .object _ => rfl
  | .generic name arguments =>
    simp only [hb] at h
    show schemaOfGeneric env (env.schemaOf n) name arguments = _
    dsimp only [schemaOfGeneric]
    split
    · simp at h
    · simp at h
    · simp at h
    · rfl
    · rfl
    · rfl
    · next hpartial hrequired hreadonly =>
      simp only at h
      split at h
      · next hmodifier =>
        -- One argument of a modifier is one of the cases above.
        obtain ⟨first, rfl⟩ := List.length_eq_one_iff.1 (of_decide_eq_true h)
        obtain rfl | rfl | rfl := eq_of_isSome_modifier? hmodifier
        · exact (hpartial first rfl rfl).elim
        · exact (hrequired first rfl rfl).elim
        · exact (hreadonly first rfl rfl).elim
      · next hmodifier =>
        rw [Option.not_isSome_iff_eq_none] at hmodifier
        rw [if_pos h, shapeOf, shapeWith, hmodifier, if_pos h]
  | .array _ | .literal _ | .union _ | .intersection _ | .wrapped _ | .other => simp [hb] at h

/-- A type by which a name can be replaced: both are rendered by the same shape. -/
structure StandsFor (env : TypeEnv) (t : TypeExpr) (name : String) : Prop where
  named : env.rendersShape (named name)
  renders : env.rendersShape t
  shape : env.shapeOf t = env.shapeOfName name

/-- Names that are replaced only by types that stand for them. -/
def Faithful (env : TypeEnv) (σ : String → TypeExpr) : Prop :=
  ∀ name, σ name = .named name ∨ env.StandsFor (σ name) name

namespace Faithful

variable (h : env.Faithful σ)

include h

theorem shapeOf_eq (name : String) : env.shapeOf (σ name) = env.shapeOfName name := by
  rcases h name with heq | hstands
  · rw [heq]
    rfl
  · exact hstands.shape

theorem isNullish_eq (name : String) : (σ name).isNullish = false := by
  rcases h name with heq | hstands
  · rw [heq]
    rfl
  · have hrenders := hstands.renders
    cases ht : σ name with
    | literal value => simp [rendersShape, ht, bare] at hrenders
    | _ => rfl

theorem alternatives_eq (name : String) : (σ name).alternatives = [σ name] := by
  rcases h name with heq | hstands
  · rw [heq]
    rfl
  · have hrenders := hstands.renders
    cases ht : σ name with
    | union parts => simp [rendersShape, ht, bare] at hrenders
    | _ => rfl

theorem text?_eq (name : String) : Schema.text? (σ name) = none := by
  rcases h name with heq | hstands
  · rw [heq]
    rfl
  · have hrenders := hstands.renders
    cases ht : σ name with
    | literal value => simp [rendersShape, ht, bare] at hrenders
    | _ => rfl

theorem text?_subst (t : TypeExpr) : Schema.text? (t.subst σ) = Schema.text? t := by
  cases t with
  | named name =>
    rw [subst, h.text?_eq]
    rfl
  | _ => simp [subst, Schema.text?]

theorem alternatives_subst (t : TypeExpr) :
    (t.subst σ).alternatives = t.alternatives.map (subst σ) := by
  induction t using TypeExpr.induction with
  | named name =>
    rw [subst, h.alternatives_eq]
    rfl
  | union parts ih =>
    rw [subst, substAll_eq, alternatives, alternatives, alternativesOf_eq, alternativesOf_eq,
      List.flatMap_map, List.map_flatMap]
    exact List.flatMap_congr ih
  | _ => simp [subst, alternatives]

/-- The schema of a type with type arguments. -/
theorem schemaOfGeneric_subst {next : TypeExpr → Json} (hnext : ∀ t, next (t.subst σ) = next t)
    (name : String) (arguments : List TypeExpr) :
    env.schemaOfGeneric next name (substAll σ arguments) =
      env.schemaOfGeneric next name arguments := by
  have hshape : Schema.ofShape next (env.shapeOf (.generic name (substAll σ arguments))) =
      Schema.ofShape next (env.shapeOf (.generic name arguments)) := by
    refine Schema.ofShape_congr (R := Replaced σ) (fun t' t ht => ?_) ?_
    · rcases ht with rfl | rfl
      · rfl
      · exact hnext t
    · exact alike_shapeOf_subst h.shapeOf_eq h.isNullish_eq (.generic name arguments)
  -- How a type with arguments is rendered depends on its name and on how many there are.
  rw [substAll_eq] at hshape ⊢
  match arguments with
  | [] => rfl
  | [a] =>
    have ha := hnext a
    rw [List.map_singleton] at hshape ⊢
    generalize subst σ a = a' at hshape ha ⊢
    dsimp only [schemaOfGeneric]
    split <;> simp_all
  | [a, b] =>
    have hb := hnext b
    rw [List.map_cons, List.map_singleton] at hshape ⊢
    generalize subst σ b = b' at hshape hb ⊢
    dsimp only [schemaOfGeneric]
    split <;> simp_all
  | _ :: _ :: _ :: _ => simp [schemaOfGeneric]

/-- Names can be replaced by types that stand for them, however deep a schema follows the types. -/
theorem schemaOf_subst (n : Nat) (x : TypeExpr) :
    env.schemaOf n (x.subst σ) = env.schemaOf n x := by
  -- On the depth for the types inside, and at each depth on the type for its parentheses.
  induction n generalizing x with
  | zero => rfl
  | succ n ih =>
    induction x using TypeExpr.induction with
    | named name =>
      rw [subst]
      rcases h name with heq | hstands
      · rw [heq]
      · rw [schemaOf_of_rendersShape hstands.renders, schemaOf_of_rendersShape hstands.named,
          hstands.shape]
        rfl
    | generic name arguments _ =>
      rw [subst, schemaOf, schemaOf]
      exact h.schemaOfGeneric_subst ih name arguments
    | object members =>
      rw [subst, schemaOf, schemaOf]
      refine Schema.ofShape_congr (R := Replaced σ) (fun t' t ht => ?_) ?_
      · rcases ht with rfl | rfl
        · rfl
        · exact ih t
      · simpa only [subst] using
          alike_shapeOf_subst h.shapeOf_eq h.isNullish_eq (.object members)
    | union parts _ =>
      have halternatives :
          alternativesOf (substAll σ parts) = (alternativesOf parts).map (subst σ) := by
        simpa only [subst, alternatives] using h.alternatives_subst (.union parts)
      rw [subst, schemaOf, schemaOf]
      simp only [bare, halternatives, Schema.ofUnion, List.mapM_map, h.text?_subst, List.map_map,
        Function.comp_def, ih]
    | array items =>
      rw [subst, schemaOf, schemaOf]
      exact congrArg Schema.list (ih items)
    | wrapped inner ih' =>
      rw [subst, ← schemaOf_bare, ← schemaOf_bare (t := wrapped inner), bare, bare, schemaOf_bare,
        schemaOf_bare]
      exact ih'
    | intersection parts _ =>
      rw [subst]
      rfl
    | _ => rw [subst]

end Faithful

/-! ### Types that are not rendered by their shapes -/

/-- A type that is a modifier has one argument, if the modifier is a declared name as well. -/
def WellApplied (env : TypeEnv) (t : TypeExpr) : Prop :=
  ∀ name arguments, t.bare = .generic name arguments → (modifier? name).isSome →
    env.isKnown name → arguments.length = 1

theorem entry?_schemaOf_of_not_rendersShape {t : TypeExpr} (ht : env.WellApplied t)
    (h : env.rendersShape t = false) :
    Schema.entry? "type" (env.schemaOf 1 t) ≠ some (.string "object") ∨
      Schema.entry? "additionalProperties" (env.schemaOf 1 t) ≠ none := by
  have hany : Schema.entry? "type" Schema.any ≠ some (.string "object") := by
    simp [Schema.any, Schema.entry?]
  have hlist : ∀ items, Schema.entry? "type" (Schema.list items) ≠ some (.string "object") := by
    simp [Schema.list, Schema.entry?_of]
  unfold rendersShape at h
  rw [schemaOf]
  match hb : t.bare with
  | .builtin name =>
    simp only [hb, decide_eq_false_iff_not] at h
    left
    dsimp only [Schema.ofBuiltin]
    split
    · simpa [Schema.ofType, Schema.entry?, Keyed.get?] using h
    · exact hany
  | .literal value =>
    left
    cases value with
    | string | value => simp [Schema.ofLiteral, Schema.entry?, Keyed.get?]
    | undefined | other => exact hany
  | .array items => exact .inl (hlist _)
  | .union parts =>
    left
    dsimp only [Schema.ofUnion]
    split
    · simp [Schema.entry?_of]
    · simp [Schema.entry?, Keyed.get?]
  | .named name =>
    left
    dsimp only
    split
    · simp [Schema.entry?_of]
    · next hdate =>
      rw [if_neg (by simpa [hb, hdate] using h)]
      exact hany
  | .generic name arguments =>
    simp only [hb] at h
    dsimp only [schemaOfGeneric]
    split
    · exact .inl (hlist _)
    · exact .inl (hlist _)
    -- A record is an object too, but it says what its other properties are.
    · right
      simp [Schema.entry?_of]
    · simp [modifier?] at h
    · simp [modifier?] at h
    · simp [modifier?] at h
    · left
      simp only at h
      have hknown : ¬ env.isKnown name := by
        intro hknown
        split at h
        · next hmodifier =>
          exact of_decide_eq_false h (ht name arguments hb hmodifier hknown)
        · exact Bool.eq_false_iff.1 h hknown
      rw [if_neg hknown]
      exact hany
  | .object _ => simp [hb] at h
  | .intersection _ | .wrapped _ | .other => exact .inl hany

/-- Only `Date` has a schema with a format. -/
theorem bare_of_entry?_format {t : TypeExpr}
    (h : Schema.entry? "format" (env.schemaOf 1 t) ≠ none) : t.bare = .named "Date" := by
  have hshape : ∀ s, Schema.entry? "format" (Schema.ofShape (env.schemaOf 0) s) = none :=
    Schema.entry?_ofShape_eq_none (by decide) _
  have hany : Schema.entry? "format" Schema.any = none := rfl
  have hlist : ∀ items, Schema.entry? "format" (Schema.list items) = none := by
    simp [Schema.list, Schema.entry?_of]
  contrapose! h
  rw [schemaOf]
  match hb : t.bare with
  | .builtin name =>
    dsimp only [Schema.ofBuiltin]
    split
    · simp [Schema.ofType, Schema.entry?, Keyed.get?]
    · exact hany
  | .literal value =>
    cases value with
    | string | value => simp [Schema.ofLiteral, Schema.entry?, Keyed.get?]
    | undefined | other => exact hany
  | .array items => exact hlist _
  | .union parts =>
    dsimp only [Schema.ofUnion]
    split
    · simp [Schema.entry?_of]
    · simp [Schema.entry?, Keyed.get?]
  | .named name =>
    have hname : name ≠ "Date" := fun hname => h (by rw [hb, hname])
    dsimp only
    rw [if_neg hname]
    split
    · exact hshape _
    · exact hany
  | .generic name arguments =>
    dsimp only [schemaOfGeneric]
    split
    · exact hlist _
    · exact hlist _
    · simp [Schema.entry?_of]
    · exact hshape _
    · exact hshape _
    · exact hshape _
    · split
      · exact hshape _
      · exact hany
  | .object _ => exact hshape _
  | .intersection _ | .wrapped _ | .other => exact hany

/-- **A name may be replaced by what it stands for, wherever it occurs, exactly if that is rendered
by its shape.**  The name is declared once, as an alias, and its resolution does not come back to
it; then however deep a schema follows the types, it is the same for every type in which the name
occurs and for the type written out.  An alias of a text, a list, a literal or a union is rendered
as an object, and one that is called `Date` as a date. -/
theorem schemaOf_replace_iff {name : String} {t : TypeExpr}
    (hdecls : env.declsOf? name = some [⟨.alias (some t), false⟩])
    (hrec : ¬ Relation.TransGen env.Asks name name) (ht : env.WellApplied t) :
    (∀ n x, env.schemaOf n (x.replace name t) = env.schemaOf n x) ↔
      name ≠ "Date" ∧ env.rendersShape t := by
  have hnamed : name ≠ "Date" → env.rendersShape (.named name) := by
    intro hname
    simp [rendersShape, bare, hname, isKnown, hdecls]
  constructor
  · intro h
    -- The name alone tells the two apart, where a schema follows one level of types.
    have heq : env.schemaOf 1 t = env.schemaOf 1 (.named name) := by
      rw [← h 1 (.named name), replace, subst, Function.update_self]
    have hname : name ≠ "Date" := by
      rintro rfl
      -- Only `Date` is rendered as a date, so that the alias would have to stand for itself.
      have hbare : t.bare = .named "Date" :=
        bare_of_entry?_format (by rw [heq]; simp [schemaOf, bare, Schema.entry?_of])
      have hheads : "Date" ∈ t.heads := by
        rw [← heads_bare, hbare]
        exact List.mem_singleton_self _
      exact hrec (.single ⟨_, hdecls, _, List.mem_singleton_self _, hheads⟩)
    refine ⟨hname, by_contra fun hnot => ?_⟩
    rw [schemaOf_of_rendersShape (hnamed hname)] at heq
    rcases entry?_schemaOf_of_not_rendersShape ht (Bool.eq_false_iff.2 hnot) with hne | hne
    · exact hne (by rw [heq, Schema.entry?_type_ofShape])
    · exact hne (by rw [heq, Schema.entry?_ofShape_eq_none (by decide)])
  · rintro ⟨hname, h⟩ n x
    refine Faithful.schemaOf_subst (fun other => ?_) n x
    by_cases hother : other = name
    · subst hother
      rw [Function.update_self]
      exact .inr ⟨hnamed hname, h, (shapeOfName_of_alias hdecls hrec).symm⟩
    · exact .inl (Function.update_of_ne hother _ _)

/-- Two texts. -/
def tones : TypeExpr := .union [.literal (.string "formal"), .literal (.string "casual")]

/-- The declaration of a name for them. -/
def toneDecls : TypeEnv := ⟨[("Tone", [⟨.alias (some tones), false⟩])]⟩

theorem schemaOf_replace_iff_tones :
    toneDecls.declsOf? "Tone" = some [⟨.alias (some tones), false⟩] ∧
      ¬ Relation.TransGen toneDecls.Asks "Tone" "Tone" ∧ toneDecls.WellApplied tones ∧
      ¬ ∀ n x, toneDecls.schemaOf n (x.replace "Tone" tones) = toneDecls.schemaOf n x := by
  have hdecls : toneDecls.declsOf? "Tone" = some [⟨.alias (some tones), false⟩] := rfl
  have hrec : ¬ Relation.TransGen toneDecls.Asks "Tone" "Tone" := by
    intro h
    obtain ⟨other, ⟨ds, hds, d, hd, hother⟩, -⟩ := Relation.TransGen.head'_iff.1 h
    obtain rfl := Option.some.inj (hdecls.symm.trans hds)
    obtain rfl := List.mem_singleton.1 hd
    exact List.not_mem_nil hother
  have happlied : toneDecls.WellApplied tones := nofun
  refine ⟨hdecls, hrec, happlied, ?_⟩
  rw [schemaOf_replace_iff hdecls hrec happlied]
  decide

end TypeEnv

end FlowAnalysis
