import FlowAnalysis.Proofs.Types.Aliases

/-!
# Input schemas are well formed and finite

The schema of a type goes through the type as it is written, through the declarations of its names
and through the shapes that these have.  How deep it has gone is counted with every level of the
schema, but not with parentheses; beyond a bound everything is taken.  So it comes to an end for
every type over every list of declarations, those that ask for themselves included, and what comes
out is well formed at every level.

## Main definitions

* `Schema.Inside` — a schema some levels inside of another one.
* `Schema.WellFormed` — what is required is among the properties, and nesting is bounded.
* `TypeEnv.render` — the schema of a type, the depth being counted upwards.

## Main results

* `TypeEnv.render_eq` — counting upwards ends and gives the same schema.
* `TypeEnv.wellFormed_schemaOf` — schemas of types are well formed.
* **`Payload.schema?_wellFormed`** — the input schema lists the fields that the flow declares and is
  well formed.
-/

namespace FlowAnalysis

namespace Schema

/-! ### Schemas inside of schemas -/

/-- A schema right inside of another one: of a property, of the items, of an alternative or of all
other properties. -/
inductive Child (w v : Json) : Prop
  | property {properties : List (String × Json)} {name : String}
    (h : entry? "properties" v = some (.object properties))
    (hw : Keyed.get? properties name = some w)
  | items (h : entry? "items" v = some w)
  | alternative {alternatives : List Json}
    (h : entry? "anyOf" v = some (.array alternatives)) (hw : w ∈ alternatives)
  | additional (h : entry? "additionalProperties" v = some w)

/-- A schema some levels inside of another one. -/
inductive Inside : Nat → Json → Json → Prop
  | self (v : Json) : Inside 0 v v
  | child {d : Nat} {u w v : Json} (hw : Child w v) (hu : Inside d u w) : Inside (d + 1) u v

/-- Whether a schema is one of objects, of arrays or of alternatives. -/
def isComposite (v : Json) : Bool :=
  match entry? "type" v with
  | some (.string "object") | some (.string "array") => true
  | _ => Option.isSome <| entry? "anyOf" v

/-- What a schema requires, if it has properties, are some of these: not none, and none twice. -/
def RequiresProperties (v : Json) : Prop :=
  ∀ w, entry? "properties" v = some w → ∃ properties : List (String × Json),
    w = .object properties ∧ ∀ r, entry? "required" v = some r → ∃ names : List String,
      r = Json.strings names ∧ names ≠ [] ∧ names.Nodup ∧
        ∀ name ∈ names, name ∈ properties.map Prod.fst

/-- Every schema inside of a schema requires only properties that it has, and it stands fewer than
`n` levels inside if it is one of objects, of arrays or of alternatives. -/
def WellFormed (n : Nat) (v : Json) : Prop :=
  ∀ d u, Inside d u v → RequiresProperties u ∧ (isComposite u → d < n)

variable {n : Nat} {v : Json}

/-- A schema is well formed if the schemas right inside of it are, at one level less. -/
theorem wellFormed_succ (hv : RequiresProperties v) (hchild : ∀ w, Child w v → WellFormed n w) :
    WellFormed (n + 1) v := by
  intro d u hu
  cases hu with
  | self => exact ⟨hv, fun _ => Nat.succ_pos n⟩
  | child hw hu =>
    obtain ⟨hrequires, hdepth⟩ := hchild _ hw _ u hu
    exact ⟨hrequires, fun hcomposite => Nat.succ_lt_succ (hdepth hcomposite)⟩

theorem wellFormed_any (n : Nat) : WellFormed n any := by
  intro d u hu
  cases hu with
  | self => exact ⟨nofun, nofun⟩
  | child hw _ => cases hw <;> contradiction

/-- A schema that has no schema inside of it and lists no properties is well formed. -/
theorem wellFormed_of_leaf
    (h : ∀ key ∈ ["properties", "items", "anyOf", "additionalProperties"], entry? key v = none) :
    WellFormed (n + 1) v := by
  simp only [List.forall_mem_cons, List.not_mem_nil, false_implies, implies_true, and_true] at h
  obtain ⟨hproperties, hitems, halternatives, hadditional⟩ := h
  refine wellFormed_succ (fun w hw => ?_) fun w hw => ?_
  · rw [hproperties] at hw
    cases hw
  · cases hw with
    | property h => rw [hproperties] at h; cases h
    | items h => rw [hitems] at h; cases h
    | alternative h => rw [halternatives] at h; cases h
    | additional h => rw [hadditional] at h; cases h

/-! ### Descriptions -/

theorem entry?_object (key : String) (entries : List (String × Json)) :
    entry? key (.object entries) = Keyed.get? entries key :=
  rfl

theorem entry?_describe {key : String} (hkey : key ≠ "description") (doc : Option String)
    (v : Json) : entry? key (describe doc v) = entry? key v := by
  unfold describe
  split
  · rw [entry?_object, entry?_object, Keyed.get?_insert, if_neg (Ne.symm hkey)]
  · rfl

/-- A description changes nothing but itself. -/
theorem WellFormed.describe (h : WellFormed n v) (doc : Option String) :
    WellFormed n (describe doc v) := by
  have hchild : ∀ w, Child w (Schema.describe doc v) → Child w v := by
    intro w hw
    cases hw with
    | property h hw => exact .property (by rwa [entry?_describe (by decide)] at h) hw
    | items h => exact .items (by rwa [entry?_describe (by decide)] at h)
    | alternative h hw => exact .alternative (by rwa [entry?_describe (by decide)] at h) hw
    | additional h => exact .additional (by rwa [entry?_describe (by decide)] at h)
  intro d u hu
  cases hu with
  | self =>
    rw [RequiresProperties, isComposite, entry?_describe (by decide), entry?_describe (by decide),
      entry?_describe (by decide), entry?_describe (by decide)]
    exact h 0 v (.self v)
  | child hw hu => exact h _ u (.child (hchild _ hw) hu)

/-! ### The schemas of shapes -/

section Shapes

variable {render : TypeExpr → Json} {fields : List (String × FieldShape)}

theorem entry?_properties_ofFields : entry? "properties" (ofFields render fields) =
    some (.object (Keyed.sorted Keyed.stringLt
      (fields.map fun e => (e.1, describe e.2.doc ((e.2.type.map render).getD any))))) := by
  unfold ofFields
  dsimp only
  split <;> simp [entry?_of]

theorem entry?_required_ofFields : entry? "required" (ofFields render fields) =
    let names := (fields.filter fun e => !e.2.optional).map (·.1)
    if names.isEmpty then none else some (Json.strings names) := by
  unfold ofFields
  dsimp only
  split <;> simp [entry?_of]

theorem entry?_ofFields_eq_none {key : String} (hkey : key ∉ ["type", "properties", "required"]) :
    entry? key (ofFields render fields) = none := by
  simp only [List.mem_cons, List.not_mem_nil, or_false, not_or] at hkey
  obtain ⟨htype, hproperties, hrequired⟩ := hkey
  unfold ofFields
  dsimp only
  split <;> simp [entry?_of, Ne.symm htype, Ne.symm hproperties, Ne.symm hrequired]

/-- The properties of the schema of fields are the fields. -/
theorem keys_properties_ofFields (render : TypeExpr → Json)
    (hdistinct : (fields.map Prod.fst).Nodup) :
    ∃ properties : List (String × Json),
      entry? "properties" (ofFields render fields) = some (.object properties) ∧
        (properties.map Prod.fst).Perm (fields.map Prod.fst) := by
  refine ⟨_, entry?_properties_ofFields, ?_⟩
  have hkeys : (fields.map fun e =>
      (e.1, describe e.2.doc ((e.2.type.map render).getD any))).map Prod.fst =
        fields.map Prod.fst := by
    rw [List.map_map]
    rfl
  rw [← hkeys] at hdistinct ⊢
  generalize (fields.map fun e =>
    (e.1, describe e.2.doc ((e.2.type.map render).getD any))) = entries at hdistinct
  refine (List.perm_ext_iff_of_nodup ?_ hdistinct).2 fun name => ?_
  · exact (Keyed.ordered_sorted entries).nodup_keys
  · rw [← Keyed.isSome_get?_iff, Keyed.get?_sorted, Keyed.isSome_get?_iff, List.map_reverse,
      List.mem_reverse]

/-- The schema of fields is well formed if those of their types are. -/
theorem wellFormed_ofFields (hrender : ∀ t, WellFormed n (render t))
    (hdistinct : (fields.map Prod.fst).Nodup) : WellFormed (n + 1) (ofFields render fields) := by
  refine wellFormed_succ (fun w hw => ?_) fun w hw => ?_
  · obtain ⟨properties, hproperties, hperm⟩ := keys_properties_ofFields render hdistinct
    rw [hproperties] at hw
    refine ⟨properties, (Option.some.inj hw).symm, fun r hr => ?_⟩
    rw [entry?_required_ofFields] at hr
    dsimp only at hr
    split at hr
    · cases hr
    · next hne =>
      refine ⟨_, (Option.some.inj hr).symm, by simpa using hne, ?_, fun name hname => ?_⟩
      · exact hdistinct.sublist (List.filter_sublist.map _)
      · exact hperm.mem_iff.2 ((List.filter_sublist.map _).subset hname)
  · cases hw with
    | property h hw =>
      obtain rfl := Json.object.inj (Option.some.inj (entry?_properties_ofFields.symm.trans h))
      rw [Keyed.get?_sorted] at hw
      obtain ⟨e, -, he⟩ := List.mem_map.1 (List.mem_reverse.1 (Keyed.mem_of_get? hw))
      obtain rfl := congrArg Prod.snd he
      refine WellFormed.describe ?_ e.2.doc
      cases e.2.type with
      | none => exact wellFormed_any n
      | some t => exact hrender t
    | items h => rw [entry?_ofFields_eq_none (by decide)] at h; cases h
    | alternative h => rw [entry?_ofFields_eq_none (by decide)] at h; cases h
    | additional h => rw [entry?_ofFields_eq_none (by decide)] at h; cases h

theorem wellFormed_ofShape (hrender : ∀ t, WellFormed n (render t)) {s : Shape}
    (hs : s.Distinct) : WellFormed (n + 1) (ofShape render s) := by
  unfold ofShape
  split
  · exact wellFormed_of_leaf (by decide)
  · exact wellFormed_ofFields hrender hs

end Shapes

/-! ### The schemas of other types -/

theorem wellFormed_list (hv : WellFormed n v) : WellFormed (n + 1) (list v) := by
  have hnone : ∀ key ∉ ["type", "items"], entry? key (list v) = none := by
    intro key hkey
    simp only [List.mem_cons, List.not_mem_nil, or_false, not_or] at hkey
    simp [list, entry?_of, Ne.symm hkey.1, Ne.symm hkey.2]
  have hitems : entry? "items" (list v) = some v := by simp [list, entry?_of]
  refine wellFormed_succ (fun w hw => ?_) fun w hw => ?_
  · rw [hnone "properties" (by decide)] at hw
    cases hw
  · cases hw with
    | property h => rw [hnone _ (by decide)] at h; cases h
    | items h =>
      rw [hitems] at h
      exact Option.some.inj h ▸ hv
    | alternative h => rw [hnone _ (by decide)] at h; cases h
    | additional h => rw [hnone _ (by decide)] at h; cases h

/-- The schema of objects whose properties may have any name. -/
theorem wellFormed_record (hv : WellFormed n v) :
    WellFormed (n + 1) (of [("type", .string "object"), ("additionalProperties", v)]) := by
  have hnone : ∀ key ∉ ["type", "additionalProperties"],
      entry? key (of [("type", .string "object"), ("additionalProperties", v)]) = none := by
    intro key hkey
    simp only [List.mem_cons, List.not_mem_nil, or_false, not_or] at hkey
    simp [entry?_of, Ne.symm hkey.1, Ne.symm hkey.2]
  have hadditional : entry? "additionalProperties"
      (of [("type", .string "object"), ("additionalProperties", v)]) = some v := by
    simp [entry?_of]
  refine wellFormed_succ (fun w hw => ?_) fun w hw => ?_
  · rw [hnone "properties" (by decide)] at hw
    cases hw
  · cases hw with
    | property h => rw [hnone _ (by decide)] at h; cases h
    | items h => rw [hnone _ (by decide)] at h; cases h
    | alternative h => rw [hnone _ (by decide)] at h; cases h
    | additional h =>
      rw [hadditional] at h
      exact Option.some.inj h ▸ hv

theorem wellFormed_ofUnion {render : TypeExpr → Json} (hrender : ∀ t, WellFormed n (render t))
    (alternatives : List TypeExpr) : WellFormed (n + 1) (ofUnion render alternatives) := by
  unfold ofUnion
  split
  · exact wellFormed_of_leaf (by simp [entry?_of])
  · have hnone : ∀ key ≠ "anyOf",
        entry? key (.object [("anyOf", .array (alternatives.map render))]) = none := by
      intro key hkey
      rw [entry?_object, Keyed.get?_cons, if_neg (Ne.symm hkey), Keyed.get?_nil]
    refine wellFormed_succ (fun w hw => ?_) fun w hw => ?_
    · rw [hnone _ (by decide)] at hw
      cases hw
    · cases hw with
      | property h => rw [hnone _ (by decide)] at h; cases h
      | items h => rw [hnone _ (by decide)] at h; cases h
      | alternative h hw =>
        obtain rfl := Json.array.inj (Option.some.inj h)
        obtain ⟨t, -, rfl⟩ := List.mem_map.1 hw
        exact hrender t
      | additional h => rw [hnone _ (by decide)] at h; cases h

theorem wellFormed_ofBuiltin (n : Nat) (name : String) : WellFormed (n + 1) (ofBuiltin name) := by
  unfold ofBuiltin
  split
  · exact wellFormed_of_leaf (by simp [ofType, entry?, Keyed.get?])
  · exact wellFormed_any _

theorem wellFormed_ofLiteral (n : Nat) (l : LiteralType) : WellFormed (n + 1) (ofLiteral l) := by
  cases l with
  | string | value => exact wellFormed_of_leaf (by simp [ofLiteral, entry?, Keyed.get?])
  | undefined | other => exact wellFormed_any _

end Schema

namespace TypeEnv

open Schema

variable (env : TypeEnv)

/-! ### The schemas of types -/

theorem distinct_shapeOf (t : TypeExpr) : (env.shapeOf t).Distinct :=
  distinct_shapeWith (fun name => distinct_shapeOfNameAmong _ [] name) false t

theorem wellFormed_schemaOfGeneric {n : Nat} {next : TypeExpr → Json}
    (hnext : ∀ t, WellFormed n (next t)) (name : String) (arguments : List TypeExpr) :
    WellFormed (n + 1) (env.schemaOfGeneric next name arguments) := by
  dsimp only [schemaOfGeneric]
  split
  · exact wellFormed_list (hnext _)
  · exact wellFormed_list (hnext _)
  · exact wellFormed_record (hnext _)
  · exact wellFormed_ofShape hnext (env.distinct_shapeOf _)
  · exact wellFormed_ofShape hnext (env.distinct_shapeOf _)
  · exact wellFormed_ofShape hnext (env.distinct_shapeOf _)
  · split
    · exact wellFormed_ofShape hnext (env.distinct_shapeOf (.named name))
    · exact wellFormed_any _

/-- **The schema of a type is well formed**, and it is nested no deeper than it follows the type. -/
theorem wellFormed_schemaOf (n : Nat) (t : TypeExpr) : WellFormed n (env.schemaOf n t) := by
  induction n generalizing t with
  | zero => exact wellFormed_any 0
  | succ n ih =>
    rw [schemaOf]
    split
    · exact wellFormed_ofBuiltin n _
    · exact wellFormed_ofLiteral n _
    · exact wellFormed_list (ih _)
    · exact wellFormed_ofUnion ih _
    · exact wellFormed_ofShape ih (env.distinct_shapeOf _)
    · next name _ =>
      split
      · exact wellFormed_of_leaf (by simp [entry?_of])
      · split
        · exact wellFormed_ofShape ih (env.distinct_shapeOf (.named name))
        · exact wellFormed_any _
    · exact env.wellFormed_schemaOfGeneric ih _ _
    · exact wellFormed_any _

/-! ### Counting upwards -/

/-- The schema of a type, where `depth` is how deep it has gone.  It goes one deeper into items,
alternatives, arguments and shapes, but not into parentheses. -/
def render (env : TypeEnv) (depth : Nat) (t : TypeExpr) : Json :=
  if maxSchemaDepth ≤ depth then Schema.any
  else
    match t with
    | .wrapped inner => render env depth inner
    | .builtin name => Schema.ofBuiltin name
    | .literal v => Schema.ofLiteral v
    | .array items => Schema.list (render env (depth + 1) items)
    | .union parts =>
      Schema.ofUnion (fun t => render env (depth + 1) t) (TypeExpr.alternativesOf parts)
    | .object members =>
      Schema.ofShape (fun t => render env (depth + 1) t) (env.shapeOf (.object members))
    | .named name =>
      if name = "Date" then
        Schema.of [("type", .string "string"), ("format", .string "date-time")]
      else if env.isKnown name then
        Schema.ofShape (fun t => render env (depth + 1) t) (env.shapeOfName name)
      else Schema.any
    | .generic name arguments =>
      env.schemaOfGeneric (fun t => render env (depth + 1) t) name arguments
    | _ => Schema.any
termination_by (maxSchemaDepth - depth, sizeOf t)

/-- **A schema comes to an end**: counting how deep it has gone, it is the one that follows as many
levels as are left. -/
theorem render_eq (depth : Nat) (t : TypeExpr) :
    env.render depth t = env.schemaOf (maxSchemaDepth - depth) t := by
  -- On the levels that are left, and at each level on the type for its parentheses.
  induction hn : maxSchemaDepth - depth generalizing depth t with
  | zero =>
    unfold render
    rw [if_pos (Nat.le_of_sub_eq_zero hn), schemaOf]
  | succ n ih =>
    have hdepth : ¬ maxSchemaDepth ≤ depth := by omega
    have hnext : (fun t => env.render (depth + 1) t) = env.schemaOf n :=
      funext fun t => ih (depth + 1) t (by omega)
    induction t using TypeExpr.induction with
    | wrapped inner ih' =>
      rw [render, if_neg hdepth, ih', ← schemaOf_bare, ← schemaOf_bare (t := .wrapped inner)]
      rfl
    | array items =>
      rw [render, if_neg hdepth, congrFun hnext items]
      rfl
    | union | object | named | generic =>
      rw [render, if_neg hdepth, hnext]
      rfl
    | builtin | literal =>
      rw [render, if_neg hdepth]
      rfl
    | intersection | other =>
      unfold render
      rw [if_neg hdepth]
      rfl

end TypeEnv

/-! ### The input schema -/

/-- **The input schema of a payload is well formed and finite.**  It is rendered with a depth that
is counted upwards, over shapes for which it does not matter how many names are allowed for.  Its
properties are the fields that no built-in type declares.  Inside of it, whatever has properties
requires only these, and objects, arrays and alternatives are nested at most one level deeper than
types are followed. -/
theorem Payload.schema?_wellFormed (env : TypeEnv) (t : TypeExpr) (typeName : String)
    (pattern : Syntax.Tree) (declared : Bool) :
    (∀ more name, env.shapeOfNameAmong (env.decls.length + 1 + more) [] name =
      env.shapeOfName name) ∧
    (⟨typeName, pattern, env.shapeOf t, declared⟩ : Payload).schema? env =
      (if declared then some (Schema.ofFields (env.render 0)
        ((env.shapeOf t).fields.filter fun e => !e.2.builtin)) else none) ∧
    ∀ v, (⟨typeName, pattern, env.shapeOf t, declared⟩ : Payload).schema? env = some v →
      (∃ properties, Schema.entry? "properties" v = some (.object properties) ∧
        (properties.map Prod.fst).Perm
          (((env.shapeOf t).fields.filter fun e => !e.2.builtin).map Prod.fst)) ∧
      Schema.WellFormed (maxSchemaDepth + 1) v := by
  have hdistinct : (((env.shapeOf t).fields.filter fun e => !e.2.builtin).map Prod.fst).Nodup :=
    (env.distinct_shapeOf t).sublist (List.filter_sublist.map _)
  have hrender : env.render 0 = env.schemaOf maxSchemaDepth := funext (env.render_eq 0)
  refine ⟨fun more name => ?_, ?_, fun v hv => ?_⟩
  · refine TypeEnv.shapeOfNameAmong_allowance ⟨List.nodup_nil, nofun⟩ ?_ ?_ name
    · rw [List.length_nil]
      omega
    · rw [List.length_nil]
      omega
  · rw [schema?, hrender]
  · rw [schema?] at hv
    split at hv
    · rw [← Option.some.inj hv]
      exact ⟨Schema.keys_properties_ofFields _ hdistinct,
        Schema.wellFormed_ofFields (env.wellFormed_schemaOf maxSchemaDepth) hdistinct⟩
    · cases hv

end FlowAnalysis
