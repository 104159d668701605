import FlowAnalysis.Json.Decode
import FlowAnalysis.Proofs.Literals.Rendering

/-!
# Reading back parts of values

Lists and maps are read back item by item, and what any value is read as has all its objects in the
order of their keys, so that it is read as itself from then on.

## Main definitions

* `Json.Proper` — values as they are held once they have been read.

## Main results

* `Json.ordered_canonical`, `Json.usable_canonical` — canonical values are in order and usable.
* `Json.fields?_object` — **records are seen as they are written**, also where fields are left out.
* `Json.asList?_array`, `Json.asMap?_object` — **lists and maps are read back.**
* `Json.asAny?_of_proper`, `Json.proper_of_asAny?` — what any value is read as.
* `Json.exists_of_asList?`, `Json.exists_of_asMap?` — where the items of a list or a map come from.
-/

namespace FlowAnalysis.Json

variable {α : Type}

/-! ### Values in canonical form -/

theorem orderedEntries_iff {es : List (String × Json)} :
    OrderedEntries es ↔ ∀ e ∈ es, e.2.Ordered := by
  induction es with
  | nil => simp [OrderedEntries]
  | cons e es ih => simp [OrderedEntries, ih]

theorem usableItems_iff {vs : List Json} : usableItems vs ↔ ∀ v ∈ vs, v.usable := by
  induction vs with
  | nil => simp [usableItems]
  | cons v vs ih => simp [usableItems, ih]

theorem usableEntries_iff {es : List (String × Json)} :
    usableEntries es ↔ ∀ e ∈ es, e.2.usable := by
  induction es with
  | nil => simp [usableEntries]
  | cons e es ih => simp [usableEntries, ih]

mutual

/-- **The keys of every object in a canonical value ascend.** -/
theorem ordered_canonical : ∀ v : Json, v.canonical.Ordered
  | null | bool _ | number _ | string _ | meaningless => trivial
  | array items => orderedItems_canonical items
  | object entries => ⟨Keyed.ordered_sorted _, orderedEntries_iff.2 fun _ he =>
      orderedEntries_iff.1 (orderedEntries_canonical entries) _ (Keyed.mem_of_mem_sorted he)⟩

theorem orderedItems_canonical : ∀ vs : List Json, OrderedItems (canonicalItems vs)
  | [] => trivial
  | v :: vs => ⟨ordered_canonical v, orderedItems_canonical vs⟩

theorem orderedEntries_canonical : ∀ es : List (String × Json),
    OrderedEntries (canonicalEntries es)
  | [] => trivial
  | (_, v) :: es => ⟨ordered_canonical v, orderedEntries_canonical es⟩

end

mutual

/-- A usable value is usable in canonical form. -/
theorem usable_canonical : ∀ {v : Json}, v.usable → v.canonical.usable
  | null, h | bool _, h | number _, h | string _, h | meaningless, h => h
  | array _, h => usableItems_canonical h
  | object _, h => usableEntries_iff.2 fun _ he =>
      usableEntries_iff.1 (usableEntries_canonical h) _ (Keyed.mem_of_mem_sorted he)

theorem usableItems_canonical : ∀ {vs : List Json}, usableItems vs → usableItems (canonicalItems vs)
  | [], h => h
  | _ :: _, h =>
    Bool.and_eq_true_iff.2 ((Bool.and_eq_true_iff.1 h).imp usable_canonical usableItems_canonical)

theorem usableEntries_canonical : ∀ {es : List (String × Json)}, usableEntries es →
    usableEntries (canonicalEntries es)
  | [], h => h
  | (_, _) :: _, h =>
    Bool.and_eq_true_iff.2 ((Bool.and_eq_true_iff.1 h).imp usable_canonical usableEntries_canonical)

end

/-- A value as it is held once it has been read: all of it has a meaning, and the keys of every
object ascend. -/
structure Proper (v : Json) : Prop where
  usable : v.usable
  ordered : v.Ordered

/-- A value as it is held is read as itself. -/
theorem asAny?_of_proper {v : Json} (h : v.Proper) : asAny? v = some v := by
  rw [asAny?, if_pos h.usable, h.ordered.canonical_eq]

theorem proper_of_asAny? {v w : Json} (h : asAny? v = some w) : w.Proper := by
  unfold asAny? at h
  split at h
  · next husable =>
    obtain rfl := Option.some.inj h
    exact ⟨usable_canonical husable, ordered_canonical v⟩
  · simp at h

/-! ### Records -/

/-- An entry that may be left out is found under its name. -/
theorem get?_optionalEntry (name key : String) (v : Option Json) :
    Keyed.get? ( entry? name v) key = if name = key then v else none := by
  cases v with
  | none => exact (ite_self none).symm
  | some v => exact Keyed.get?_cons (name, v) [] key

/-- A record that is written with its fields in their order is seen as it is. -/
theorem fields?_object {names : List String} {entries : List (String × Json)}
    (h : (entries.map (·.1)).Sublist names) (hnames : names.Nodup) :
    fields? names (.object entries) = some ⟨entries, false⟩ := by
  have hknown : entries.filter (fun e => names.contains e.1) = entries :=
    List.filter_eq_self.2 fun e he => by simpa using h.subset (List.mem_map_of_mem he)
  simp only [fields?, hknown]
  rw [if_pos (hnames.sublist h)]

theorem Fields.optional_eq (f : Fields) (name : String) (decode : Json → Option α) :
    f.optional name decode = (f.get? name).elim (some none) (asOption? decode) := by
  unfold optional withDefault
  cases f.get? name <;> rfl

theorem Fields.nullable_eq (entries : List (String × Json)) (name : String)
    (decode : Json → Option α) : nullable ⟨entries, false⟩ name decode =
      (Keyed.get? entries name).elim (some none) (asOption? decode) := by
  unfold nullable get?
  cases Keyed.get? entries name <;> rfl

/-- What may be left out is read back if what stands there is. -/
theorem elim_asOption? {decode : Json → Option α} {w : α → Json}
    (h : ∀ a, asOption? decode (w a) = some (some a)) (o : Option α) :
    o.elim (some none) (asOption? decode ∘ w) = some o := by
  cases o with
  | none => rfl
  | some a => exact h a

theorem asString?_string (s : String) : asString? (string s) = some s := rfl

theorem asOption?_string (s : String) : asOption? asString? (string s) = some (some s) := rfl

/-! ### Lists and maps -/

/-- What is written item by item is read back if each item is. -/
theorem mapM_map {β : Type} {f : β → Option α} {w : α → β} {xs : List α}
    (h : ∀ x ∈ xs, f (w x) = some x) : (xs.map w).mapM f = some xs := by
  induction xs with
  | nil => rfl
  | cons x xs ih =>
    rw [List.forall_mem_cons] at h
    rw [List.map_cons, List.mapM_cons, h.1, ih h.2]
    rfl

/-- **Lists are read back** if their items are. -/
theorem asList?_array {item : Json → Option α} {w : α → Json} {xs : List α}
    (h : ∀ x ∈ xs, item (w x) = some x) : asList? item (.array (xs.map w)) = some xs :=
  mapM_map h

theorem asStrings?_strings (xs : List String) : asStrings? (strings xs) = some xs :=
  asList?_array fun _ _ => rfl

theorem asOption?_strings (xs : List String) :
    asOption? asStrings? (strings xs) = some (some xs) :=
  congrArg (Option.map some) (asStrings?_strings xs)

/-- **Maps are read back** if their values are and no key stands twice. -/
theorem asMap?_object {value : Json → Option α} {w : α → Json} {m : List (String × α)}
    (hm : (m.map (·.1)).Nodup) (h : ∀ e ∈ m, value (w e.2) = some e.2) :
    asMap? value (.object (m.map fun e => (e.1, w e.2))) = some m := by
  have hentries : decodeEntries? value (m.map fun e => (e.1, w e.2)) = some m :=
    mapM_map fun e he => by simp only [h e he, Option.map_some]
  rw [asMap?, hentries, Option.map_some, Keyed.ofList_of_nodup hm]

/-- What is read item by item is read off the items. -/
theorem exists_of_mapM {β : Type} {f : β → Option α} {bs : List β} {as : List α}
    (h : bs.mapM f = some as) : ∀ a ∈ as, ∃ b ∈ bs, f b = some a := by
  induction bs generalizing as with
  | nil =>
    obtain rfl := Option.some.inj h
    exact List.forall_mem_nil _
  | cons b bs ih =>
    simp only [List.mapM_cons, Option.bind_eq_bind, Option.bind_eq_some_iff] at h
    obtain ⟨a, ha, rest, hrest, h⟩ := h
    obtain rfl := Option.some.inj h
    rw [List.forall_mem_cons]
    refine ⟨⟨b, List.mem_cons_self, ha⟩, fun a' ha' => ?_⟩
    obtain ⟨b', hb', heq⟩ := ih hrest a' ha'
    exact ⟨b', List.mem_cons_of_mem b hb', heq⟩

/-- The items of a list are read off values. -/
theorem exists_of_asList? {item : Json → Option α} {v : Json} {xs : List α}
    (h : asList? item v = some xs) : ∀ x ∈ xs, ∃ w, item w = some x := by
  cases v with
  | array items =>
    intro x hx
    obtain ⟨w, -, hw⟩ := exists_of_mapM h x hx
    exact ⟨w, hw⟩
  | _ => simp [asList?] at h

/-- No key of a map stands twice, and its values are read off values. -/
theorem exists_of_asMap? {value : Json → Option α} {v : Json} {m : List (String × α)}
    (h : asMap? value v = some m) : (m.map (·.1)).Nodup ∧ ∀ e ∈ m, ∃ w, value w = some e.2 := by
  cases v with
  | object entries =>
    obtain ⟨es, hes, rfl⟩ := Option.map_eq_some_iff.1 h
    refine ⟨Keyed.nodup_keys_ofList es, fun e he => ?_⟩
    obtain ⟨e', -, he'⟩ := exists_of_mapM hes e (Keyed.mem_of_mem_ofList he)
    obtain ⟨a, ha, rfl⟩ := Option.map_eq_some_iff.1 he'
    exact ⟨e'.2, ha⟩
  | _ => simp [asMap?] at h

end FlowAnalysis.Json
