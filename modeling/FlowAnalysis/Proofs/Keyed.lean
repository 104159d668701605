import FlowAnalysis.Keyed
import Mathlib.Data.List.Nodup

/-!
# Maps in the order of their keys

What a map holds whose entries were put in the order of their keys one by one, and that it holds
them in this order.

## Main definitions

* `Keyed.Ordered` — the keys of a map ascend.
* `Keyed.Strict` — an order of keys that is strict and total.

## Main results

* `Keyed.get?_sorted` — **of the entries of one key the last counts.**
* `Keyed.ordered_sorted` — **the keys of a map whose entries were put in order ascend.**
* `Keyed.Ordered.sorted_eq` — entries whose keys ascend are in order.
* `Keyed.Strict.sorted_eq_of_perm` — **entries of different keys are put in one order from any
  other.**
* `Keyed.ofList_of_nodup` — a map whose keys are all different is what its entries make.
-/

namespace FlowAnalysis.Keyed

variable {α : Type} {m : List (String × α)}

/-! ### Values -/

theorem get?_cons (e : String × α) (m : List (String × α)) (k : String) :
    get? (e :: m) k = if e.1 = k then some e.2 else get? m k := by
  by_cases he : e.1 = k
  · rw [if_pos he, get?, List.find?_cons_of_pos (by simpa using he)]
    rfl
  · rw [if_neg he, get?, get?, List.find?_cons_of_neg (by simpa using he)]

theorem get?_append (m m' : List (String × α)) (k : String) :
    get? (m ++ m') k = (get? m k).or (get? m' k) := by
  simp only [get?, List.find?_append, Option.map_or]

theorem get?_eq_none_iff {k : String} : get? m k = none ↔ ∀ e ∈ m, e.1 ≠ k := by
  simp [get?]

/-- A key has a value if it stands in the map. -/
theorem isSome_get?_iff {k : String} : (get? m k).isSome ↔ k ∈ m.map Prod.fst := by
  rw [Option.isSome_iff_ne_none, ne_eq, get?_eq_none_iff, List.mem_map]
  push Not
  rfl

theorem mem_of_get? {k : String} {a : α} (h : get? m k = some a) : (k, a) ∈ m := by
  simp only [get?, Option.map_eq_some_iff] at h
  obtain ⟨⟨j, b⟩, he, rfl⟩ := h
  have hj := List.find?_some he
  simp only [beq_iff_eq] at hj
  exact hj ▸ List.mem_of_find?_eq_some he

theorem get?_of_mem_of_nodup (hm : (m.map Prod.fst).Nodup) {e : String × α} (he : e ∈ m) :
    get? m e.1 = some e.2 := by
  induction m with
  | nil => cases he
  | cons d rest ih =>
    obtain ⟨hd, hrest⟩ := List.nodup_cons.1 hm
    rw [get?_cons]
    rcases List.mem_cons.1 he with rfl | he
    · exact if_pos rfl
    · have hne : d.1 ≠ e.1 := fun heq => hd (List.mem_map.2 ⟨e, he, heq.symm⟩)
      rw [if_neg hne, ih hrest he]

/-- Where no key stands twice, it does not matter from which end it is looked for. -/
theorem get?_reverse (hm : (m.map Prod.fst).Nodup) (k : String) : get? m.reverse k = get? m k := by
  cases h : get? m k with
  | none =>
    rw [get?_eq_none_iff] at h ⊢
    exact fun e he => h e (List.mem_reverse.1 he)
  | some a =>
    have hreverse : (m.reverse.map Prod.fst).Nodup :=
      ((List.reverse_perm m).map Prod.fst).nodup_iff.2 hm
    exact get?_of_mem_of_nodup hreverse (List.mem_reverse.2 (mem_of_get? h))

theorem get?_filter_key (m : List (String × α)) (p : String → Bool) (k : String) :
    get? (m.filter fun e => p e.1) k = if p k then get? m k else none := by
  induction m with
  | nil => exact (ite_self _).symm
  | cons e rest ih =>
    rw [List.filter_cons]
    by_cases he : e.1 = k
    · subst he
      cases hp : p e.1 with
      | true => rw [if_pos rfl, get?_cons, if_pos rfl, if_pos rfl, get?_cons, if_pos rfl]
      | false =>
        rw [if_neg Bool.false_ne_true, if_neg Bool.false_ne_true, ih, hp,
          if_neg Bool.false_ne_true]
    · rw [get?_cons, if_neg he, ← ih]
      split
      · rw [get?_cons, if_neg he]
      · rfl

/-- The value of a key after an insertion in the order of the keys. -/
theorem get?_insert (k j : String) (a : α) (m : List (String × α)) :
    get? (insert stringLt k a m) j = if k = j then some a else get? m j := by
  induction m with
  | nil => exact get?_cons (k, a) [] j
  | cons e rest ih =>
    rw [insert]
    split
    · exact get?_cons (k, a) _ j
    · next hfront =>
      split
      · next hbehind =>
        have hne : e.1 ≠ k := fun heq => by
          rw [heq] at hbehind
          exact String.lt_irrefl k (of_decide_eq_true hbehind)
        rw [get?_cons, get?_cons, ih]
        by_cases hk : k = j
        · rw [if_pos hk, if_neg (hk ▸ hne), if_pos hk]
        · rw [if_neg hk, if_neg hk]
      · next hbehind =>
        simp only [stringLt, decide_eq_true_eq] at hfront hbehind
        -- Neither before the key nor behind it, the entry has it.
        have heq : e.1 = k := String.le_antisymm hfront hbehind
        rw [get?_cons, get?_cons, heq]
        split <;> rfl

theorem get?_foldl_insert (entries m : List (String × α)) (k : String) :
    get? (entries.foldl (fun m e => insert stringLt e.1 e.2 m) m) k =
      (get? entries.reverse k).or (get? m k) := by
  induction entries generalizing m with
  | nil => rfl
  | cons e rest ih =>
    rw [List.foldl_cons, ih, get?_insert, List.reverse_cons, get?_append, get?_cons,
      Option.or_assoc]
    split <;> rfl

/-- **Of the entries of one key the last counts.** -/
theorem get?_sorted (entries : List (String × α)) (k : String) :
    get? (sorted stringLt entries) k = get? entries.reverse k := by
  rw [sorted, get?_foldl_insert, get?_nil, Option.or_none]

theorem get?_foldl_put (entries m : List (String × α)) (k : String) :
    get? (entries.foldl (fun m e => put e.1 e.2 m) m) k =
      (get? entries.reverse k).or (get? m k) := by
  induction entries generalizing m with
  | nil => rfl
  | cons e rest ih =>
    rw [List.foldl_cons, ih, List.reverse_cons, get?_append, get?_cons, Option.or_assoc]
    by_cases he : e.1 = k
    · subst he
      rw [get?_put, if_pos rfl, Option.some_or]
    · rw [get?_put_ne m e.2 (Ne.symm he), if_neg he, get?_nil, Option.none_or]

/-- Also where a key keeps its first place its last entry counts. -/
theorem get?_ofList (entries : List (String × α)) (k : String) :
    get? (ofList entries) k = get? entries.reverse k := by
  rw [ofList, get?_foldl_put, get?_nil, Option.or_none]

/-- The value of a key where values are given to keys one by one. -/
theorem get?_filterMap (value? : String → Option α) (keys : List String) (k : String) :
    get? (keys.filterMap fun j => (value? j).map (j, ·)) k =
      if k ∈ keys then value? k else none := by
  induction keys with
  | nil => rfl
  | cons j rest ih =>
    rw [List.filterMap_cons]
    cases hj : value? j with
    | none =>
      rw [Option.map_none, ih]
      by_cases hk : k = j
      · subst hk
        simp [hj]
      · simp [hk]
    | some a =>
      rw [Option.map_some, get?_cons, ih]
      by_cases hk : j = k
      · subst hk
        simp [hj]
      · simp [hk, Ne.symm hk]

/-! ### Keys -/

section Keys

variable {κ : Type} [BEq κ]

/-- A map has no other entries than those that were put into it. -/
theorem eq_or_mem_of_mem_put {k : κ} {a : α} {m : List (κ × α)} {e : κ × α}
    (h : e ∈ put k a m) : e = (k, a) ∨ e ∈ m := by
  induction m with
  | nil => exact .inl (List.mem_singleton.1 h)
  | cons d rest ih =>
    rw [put] at h
    split at h
    · exact (List.mem_cons.1 h).imp_right (List.mem_cons_of_mem d)
    · rcases List.mem_cons.1 h with rfl | h
      · exact .inr List.mem_cons_self
      · exact (ih h).imp_right (List.mem_cons_of_mem d)

theorem mem_keys_put {k j : κ} {a : α} {m : List (κ × α)} (h : j ∈ (put k a m).map (·.1)) :
    j = k ∨ j ∈ m.map (·.1) := by
  obtain ⟨e, he, rfl⟩ := List.mem_map.1 h
  exact (eq_or_mem_of_mem_put he).imp (congrArg Prod.fst) fun hm => List.mem_map_of_mem hm

omit [BEq κ] in
/-- Where each step keeps the entries and adds one, all entries were added. -/
theorem mem_of_mem_foldl {step : List (κ × α) → κ × α → List (κ × α)}
    (hstep : ∀ m d, ∀ e ∈ step m d, e = d ∨ e ∈ m) {entries : List (κ × α)} {e : κ × α}
    (h : e ∈ entries.foldl step []) : e ∈ entries := by
  suffices hfold : ∀ m, e ∈ entries.foldl step m → e ∈ m ∨ e ∈ entries from
    (hfold [] h).resolve_left List.not_mem_nil
  clear h
  induction entries with
  | nil => exact fun m h => .inl h
  | cons d rest ih =>
    intro m h
    rcases ih _ h with h | h
    · rcases hstep m d e h with rfl | h
      · exact .inr List.mem_cons_self
      · exact .inl h
    · exact .inr (List.mem_cons_of_mem d h)

theorem mem_of_mem_ofList {entries : List (κ × α)} {e : κ × α} (h : e ∈ ofList entries) :
    e ∈ entries := mem_of_mem_foldl (fun _ _ _ => eq_or_mem_of_mem_put) h

variable [LawfulBEq κ]

theorem put_of_not_mem {k : κ} {a : α} {m : List (κ × α)} (h : k ∉ m.map (·.1)) :
    put k a m = m ++ [(k, a)] := by
  induction m with
  | nil => rfl
  | cons e rest ih =>
    rw [List.map_cons, List.mem_cons, not_or] at h
    rw [put, if_neg (by simpa using Ne.symm h.1), ih h.2, List.cons_append]

theorem nodup_keys_put {m : List (κ × α)} (h : (m.map (·.1)).Nodup) (k : κ) (a : α) :
    ((put k a m).map (·.1)).Nodup := by
  induction m with
  | nil => simp [put]
  | cons e rest ih =>
    rw [List.map_cons, List.nodup_cons] at h
    rw [put]
    split
    · next hk =>
      rw [List.map_cons, List.nodup_cons, ← eq_of_beq hk]
      exact h
    · next hk =>
      rw [List.map_cons, List.nodup_cons]
      refine ⟨fun hmem => ?_, ih h.2⟩
      exact (mem_keys_put hmem).elim (fun heq => hk (by simp [heq])) h.1

theorem nodup_keys_foldl_put {added m : List (κ × α)} (h : (m.map (·.1)).Nodup) :
    ((added.foldl (fun acc e => put e.1 e.2 acc) m).map (·.1)).Nodup := by
  induction added generalizing m with
  | nil => exact h
  | cons e rest ih => exact ih (nodup_keys_put h e.1 e.2)

/-- Keys that are all new are added as they are. -/
theorem foldl_put_of_nodup {added m : List (κ × α)} (h : ((m ++ added).map (·.1)).Nodup) :
    added.foldl (fun acc e => put e.1 e.2 acc) m = m ++ added := by
  induction added generalizing m with
  | nil => simp
  | cons e rest ih =>
    rw [List.append_cons] at h ⊢
    have hnew : e.1 ∉ m.map (·.1) := by
      simp only [List.map_append, List.nodup_append] at h
      exact fun hmem => h.1.2.2 e.1 hmem e.1 (by simp) rfl
    rw [List.foldl_cons, put_of_not_mem hnew, ih h]

/-- **A map whose keys are all different is what its entries make.** -/
theorem ofList_of_nodup {m : List (κ × α)} (h : (m.map (·.1)).Nodup) : ofList m = m :=
  foldl_put_of_nodup (m := []) h

theorem nodup_keys_ofList (entries : List (κ × α)) : ((ofList entries).map (·.1)).Nodup :=
  nodup_keys_foldl_put List.nodup_nil

end Keys

/-! ### Order -/

/-- The keys of a map ascend. -/
def Ordered (m : List (String × α)) : Prop := m.Pairwise fun e e' => e.1 < e'.1

theorem Ordered.nodup_keys (h : Ordered m) : (m.map Prod.fst).Nodup :=
  (List.pairwise_map.2 h).imp String.ne_of_lt

/-- Where the keys ascend, what stands for a key is its value. -/
theorem Ordered.get?_of_mem (h : Ordered m) {e : String × α} (he : e ∈ m) :
    get? m e.1 = some e.2 := get?_of_mem_of_nodup h.nodup_keys he

theorem eq_or_mem_of_mem_insert {e : String × α} {k : String} {a : α}
    (h : e ∈ insert stringLt k a m) : e = (k, a) ∨ e ∈ m := by
  induction m with
  | nil => exact .inl (List.mem_singleton.1 h)
  | cons d rest ih =>
    rw [insert] at h
    split at h
    · exact List.mem_cons.1 h
    · split at h
      · rcases List.mem_cons.1 h with rfl | h
        · exact .inr List.mem_cons_self
        · exact (ih h).imp_right (List.mem_cons_of_mem d)
      · exact (List.mem_cons.1 h).imp_right (List.mem_cons_of_mem d)

theorem Ordered.insert (h : Ordered m) (k : String) (a : α) :
    Ordered (insert stringLt k a m) := by
  induction m with
  | nil => exact List.pairwise_singleton _ _
  | cons d rest ih =>
    obtain ⟨hd, hrest⟩ := List.pairwise_cons.1 h
    rw [Keyed.insert]
    split
    · next hfront =>
      have hfront : k < d.1 := of_decide_eq_true hfront
      refine List.pairwise_cons.2 ⟨fun e he => ?_, h⟩
      rcases List.mem_cons.1 he with rfl | he
      · exact hfront
      · exact String.lt_trans hfront (hd e he)
    · next hfront =>
      split
      · next hbehind =>
        refine List.pairwise_cons.2 ⟨fun e he => ?_, ih hrest⟩
        rcases eq_or_mem_of_mem_insert he with rfl | he
        · exact of_decide_eq_true hbehind
        · exact hd e he
      · next hbehind =>
        simp only [stringLt, decide_eq_true_eq] at hfront hbehind
        have heq : d.1 = k := String.le_antisymm hfront hbehind
        exact List.pairwise_cons.2 ⟨fun e he => heq ▸ hd e he, hrest⟩

/-- **The keys of a map whose entries were put in order ascend.** -/
theorem ordered_sorted (entries : List (String × α)) : Ordered (sorted stringLt entries) := by
  -- The entries are put into a map that need not be empty once the first is in.
  suffices hfold : ∀ m : List (String × α), Ordered m →
      Ordered (entries.foldl (fun m e => Keyed.insert stringLt e.1 e.2 m) m) from
    hfold [] List.Pairwise.nil
  induction entries with
  | nil => exact fun _ hm => hm
  | cons e rest ih => exact fun m hm => ih _ (hm.insert e.1 e.2)

section Sorted

variable {κ : Type} {lt : κ → κ → Bool}

/-- The order of keys is strict and total. -/
structure Strict (lt : κ → κ → Bool) : Prop where
  asymm : ∀ {k j}, lt k j = true → lt j k = false
  trans : ∀ {k j i}, lt k j = true → lt j i = true → lt k i = true
  total : ∀ {k j}, lt k j = false → lt j k = false → k = j

theorem strict_natLt : Strict natLt where
  asymm h := decide_eq_false (Nat.lt_asymm (of_decide_eq_true h))
  trans h h' := decide_eq_true (Nat.lt_trans (of_decide_eq_true h) (of_decide_eq_true h'))
  total h h' := Nat.le_antisymm (Nat.le_of_not_lt (of_decide_eq_false h'))
    (Nat.le_of_not_lt (of_decide_eq_false h))

theorem strict_stringLt : Strict stringLt where
  asymm h := decide_eq_false (String.lt_asymm (of_decide_eq_true h))
  trans h h' := decide_eq_true (String.lt_trans (of_decide_eq_true h) (of_decide_eq_true h'))
  total h h' := String.le_antisymm (of_decide_eq_false h') (of_decide_eq_false h)

/-- A key behind all others is put at the end. -/
theorem Strict.insert_of_forall_lt (hlt : Strict lt) {m : List (κ × α)} {k : κ} {a : α}
    (h : ∀ e ∈ m, lt e.1 k = true) : Keyed.insert lt k a m = m ++ [(k, a)] := by
  induction m with
  | nil => rfl
  | cons e rest ih =>
    obtain ⟨hbehind, hrest⟩ := List.forall_mem_cons.1 h
    rw [Keyed.insert, hlt.asymm hbehind, hbehind, ih hrest]
    rfl

/-- Entries are in order if each key stands behind those before it. -/
theorem Strict.sorted_of_pairwise (hlt : Strict lt) {m : List (κ × α)}
    (h : m.Pairwise fun e e' => lt e.1 e'.1 = true) : sorted lt m = m := by
  -- The entries that are in already stand in front of those that are to come.
  suffices hfold : ∀ front : List (κ × α),
      (front ++ m).Pairwise (fun e e' => lt e.1 e'.1 = true) →
      m.foldl (fun m e => Keyed.insert lt e.1 e.2 m) front = front ++ m from hfold [] h
  clear h
  induction m with
  | nil => exact fun front _ => (List.append_nil front).symm
  | cons e rest ih =>
    intro front hfront
    have hbehind := fun d hd => (List.pairwise_append.1 hfront).2.2 d hd e List.mem_cons_self
    rw [List.foldl_cons, hlt.insert_of_forall_lt hbehind, ih _ (by simpa using hfront)]
    simp

/-- It does not matter which of two keys is put in order first. -/
theorem Strict.insert_comm (hlt : Strict lt) {k j : κ} (hne : k ≠ j) (a b : α)
    (m : List (κ × α)) :
    Keyed.insert lt j b (Keyed.insert lt k a m) = Keyed.insert lt k a (Keyed.insert lt j b m) := by
  wlog hkj : lt k j = true generalizing k j a b
  · cases hjk : lt j k with
    | true => exact (this hne.symm b a hjk).symm
    | false => exact absurd (hlt.total (Bool.not_eq_true _ ▸ hkj) hjk) hne
  have hjk := hlt.asymm hkj
  induction m with
  | nil => simp [Keyed.insert, hkj, hjk]
  | cons e rest ih =>
    cases hk : lt k e.1 with
    | true =>
      -- The lesser key goes in front of the entry, wherever the greater one goes.
      cases hj : lt j e.1 <;> cases hej : lt e.1 j <;> simp [Keyed.insert, hkj, hjk, hk, hj, hej]
    | false =>
      cases hek : lt e.1 k with
      | true =>
        have hej := hlt.trans hek hkj
        simp [Keyed.insert, hk, hek, hej, hlt.asymm hej, ih]
      | false =>
        obtain rfl := hlt.total hk hek
        simp [Keyed.insert, hk, hkj, hjk]

/-- **Entries of different keys are put in one order from any other.** -/
theorem Strict.sorted_eq_of_perm (hlt : Strict lt) {m m' : List (κ × α)} (h : m.Perm m')
    (hm : (m.map (·.1)).Nodup) : sorted lt m = sorted lt m' := by
  refine h.foldl_eq' (fun d hd e he acc => ?_) []
  by_cases hde : d = e
  · rw [hde]
  · have hne : d.1 ≠ e.1 := fun hkeys => hde (List.inj_on_of_nodup_map hm hd he hkeys)
    exact hlt.insert_comm hne d.2 e.2 acc

end Sorted

/-- **Entries whose keys ascend are in order.** -/
theorem Ordered.sorted_eq (h : Ordered m) : sorted stringLt m = m :=
  strict_stringLt.sorted_of_pairwise (h.imp decide_eq_true)

/-- What is in order was there before. -/
theorem mem_of_mem_sorted {entries : List (String × α)} {e : String × α}
    (h : e ∈ sorted stringLt entries) : e ∈ entries :=
  mem_of_mem_foldl (fun _ _ _ => eq_or_mem_of_mem_insert) h

/-- Entries with keys of their own are all there once they are in order. -/
theorem mem_sorted_iff {entries : List (String × α)} (hkeys : (entries.map Prod.fst).Nodup)
    {e : String × α} : e ∈ sorted stringLt entries ↔ e ∈ entries := by
  refine ⟨mem_of_mem_sorted, fun he => mem_of_get? (k := e.1) ?_⟩
  rw [get?_sorted, get?_reverse hkeys, get?_of_mem_of_nodup hkeys he]

/-- Putting entries in order leaves none out altogether. -/
theorem isEmpty_sorted (entries : List (String × α)) :
    (sorted stringLt entries).isEmpty = entries.isEmpty := by
  rcases List.eq_nil_or_concat entries with rfl | ⟨front, e, rfl⟩
  · rfl
  · rw [List.concat_eq_append]
    have hsome : get? (sorted stringLt (front ++ [e])) e.1 = some e.2 := by
      rw [get?_sorted, List.reverse_append, List.reverse_singleton, List.singleton_append,
        get?_cons, if_pos rfl]
    cases hs : sorted stringLt (front ++ [e]) with
    | nil => simp [hs] at hsome
    | cons d rest => simp

end FlowAnalysis.Keyed
