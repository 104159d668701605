import FlowAnalysis.Flow.Argument
import FlowAnalysis.Proofs.Syntax.Nodes

/-!
# What expressions are classified as

The classification goes down a tree child by child.  Here it is in terms of the named children of a
node, and wrappers are shown to leave it alone.

## Main results

* `Source.classify_eq`, `Source.entry_eq` — the classification of a node from its named children.
* `Source.classify_bare` — **wrappers do not change what an expression is classified as.**
* `Source.is_object_bare` — nothing but an object, within wrappers, is classified as one.
-/

namespace FlowAnalysis.Syntax.Source

theorem classifyFirst_eq (s : Source) (ts : List Tree) :
    s.classifyFirst ts = (((ts.filter isPart).head?).map s.classify).getD .computed := by
  induction ts with
  | nil => rfl
  | cons t ts ih =>
    rw [classifyFirst, List.filter_cons]
    split
    · rfl
    · exact ih

theorem classifyAll_eq (s : Source) (ts : List Tree) :
    s.classifyAll ts = (ts.filter isPart).map s.classify := by
  induction ts with
  | nil => rfl
  | cons t ts ih =>
    rw [classifyAll, List.filter_cons]
    split
    · rw [ih, List.map_cons]
    · exact ih

theorem entries_eq (s : Source) (ts : List Tree) :
    s.entries ts = (ts.filter isPart).map s.entry := by
  induction ts with
  | nil => rfl
  | cons t ts ih =>
    rw [entries, List.filter_cons]
    split
    · rw [ih, List.map_cons]
    · exact ih

theorem classifyValue_eq (s : Source) (ts : List Tree) :
    s.classifyValue ts =
      (ts.find? fun c => decide (c.role = some .value)).map fun c => (s.classify c, c) := by
  induction ts with
  | nil => rfl
  | cons t ts ih =>
    rw [classifyValue, List.find?_cons]
    by_cases h : t.role = some .value
    · simp [h]
    · simp [h, ih]

/-- The parts of a literal are the named children of its node. -/
theorem classify_eq (s : Source) (t : Tree) : s.classify t =
    if t.isWrapper then (t.firstNamed?.map s.classify).getD .computed
    else if t.is .object then .object (t.named.map s.entry)
    else if t.is .array then
      if t.children.any (·.is .spreadElement) then .computed
      else .array (t.named.map s.classify)
    else s.leafArgument t := by
  obtain ⟨l, r, span, ts⟩ := t
  rw [classify, classifyFirst_eq, entries_eq, classifyAll_eq]
  rfl

theorem entry_eq (s : Source) (t : Tree) : s.entry t =
    if t.is .pair then
      match t.field? .key, t.field? .value with
      | some key, some value =>
        match s.propertyName? key with
        | some name => .property name key (s.classify value) value
        | none => .other t
      | _, _ => .other t
    else if t.is .shorthandPropertyIdentifier then .property (s.textOf t) t .reference t
    else if t.is .spreadElement then .spread t
    else .other t := by
  obtain ⟨l, r, span, ts⟩ := t
  rw [entry, classifyValue_eq]
  have hvalue : (ts.find? fun c => decide (c.role = some .value)) =
      (Tree.node l r span ts).field? .value := rfl
  rw [hvalue]
  cases (Tree.node l r span ts).field? .key <;> cases (Tree.node l r span ts).field? .value <;> rfl

/-- The entries of an object are those that its named children are. -/
theorem entries_classify (s : Source) {t : Tree} (h : t.is .object) :
    (s.classify t).entries = t.named.map s.entry := by
  have hwrapper : t.isWrapper = false := by
    simp [Tree.isWrapper, Tree.isAny, Tree.is, Tree.is_iff.1 h, Tree.wrapperKinds]
  rw [s.classify_eq, hwrapper, h]
  rfl

/-- **Wrappers do not change what an expression is classified as.** -/
theorem classify_bare (s : Source) (t : Tree) : s.classify t.bare = s.classify t := by
  induction t using Tree.induction with
  | node l r span ts ih =>
    rw [Tree.bare_eq]
    split
    · next hw =>
      rw [classify_eq s (.node l r span ts), if_pos hw]
      cases hf : (Tree.node l r span ts).firstNamed? with
      | none =>
        rw [Option.map_none, Option.getD_none, classify_eq, if_pos hw, hf]
      | some c => exact ih c (Tree.mem_children_of_named (List.mem_of_head? hf))
    · rfl

theorem classify_of_object (s : Source) {t : Tree} (h : t.is .object) :
    s.classify t = .object (t.named.map s.entry) := by
  have hw : t.isWrapper = false := by
    simp [Tree.isWrapper, Tree.wrapperKinds, Tree.isAny, Tree.is, Tree.is_iff.1 h]
  rw [classify_eq, hw, h]
  rfl

theorem leafArgument_ne_object (s : Source) (t : Tree) (es : List Entry) :
    s.leafArgument t ≠ .object es := by
  have hnumber : ∀ negative t, s.numberArgument negative t ≠ .object es := by
    intro negative t
    unfold numberArgument
    split <;> simp
  unfold leafArgument
  split
  · split <;> simp
  · split <;> simp
  · exact hnumber false t
  · simp
  · simp
  · simp
  · simp
  · unfold signedArgument
    split
    · split
      · exact hnumber true _
      · simp
    · simp
  all_goals simp

/-- Nothing but an object, within wrappers, is classified as one. -/
theorem is_object_bare (s : Source) {t : Tree} {es : List Entry} (h : s.classify t = .object es) :
    t.bare.is .object := by
  induction t using Tree.induction with
  | node l r span ts ih =>
    rw [classify_eq] at h
    rw [Tree.bare_eq]
    split at h
    · next hw =>
      rw [if_pos hw]
      cases hf : (Tree.node l r span ts).firstNamed? with
      | none => simp [hf] at h
      | some c =>
        rw [hf] at h
        exact ih c (Tree.mem_children_of_named (List.mem_of_head? hf)) h
    · next hw =>
      rw [if_neg hw]
      split at h
      · next hobject => exact hobject
      · split at h
        · split at h <;> simp at h
        · exact absurd h (s.leafArgument_ne_object _ es)

end FlowAnalysis.Syntax.Source
