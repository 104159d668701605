import FlowAnalysis.Check.Structure
import FlowAnalysis.Proofs.Syntax.Reading
import FlowAnalysis.Proofs.Syntax.Sources

/-!
# Where the methods of a flow class stand

The methods of a flow class are members of its body, so they stand one behind the other, and what a
walk over the body of one comes to stands in the source.

## Main definitions

* `Syntax.Tree.isScope` — nodes that open a scope, abstract classes included.

## Main results

* `Flow.mem_nodes_of_body` — the body of a method stands below the node of the method.
* `Flow.laidFrom_of_body` — the body of a method of the flow class is laid out.
* `Flow.pairwise_methods` — **the methods of a flow class stand one behind the other.**
-/

namespace FlowAnalysis

open Syntax

/-- Whether a node opens the scope of a function or of a class of any kind. -/
def Syntax.Tree.isScope (t : Tree) : Bool := t.isFunctionLike || t.is .abstractClassDeclaration

/-- What is read off a role stands below the node. -/
theorem Syntax.Tree.mem_nodes_of_field? {t u : Tree} {r : Role} (h : t.field? r = some u) :
    u ∈ t.nodes := mem_nodes_of_child (field?_eq_some h).1

namespace Flow

variable {s : Source} {t : Tree} {m : Method} {c : FlowClass}

/-! ### The code of a method -/

theorem mem_nodes_of_functionValue? {g : Tree} (h : functionValue? t = some g) : g ∈ t.nodes := by
  obtain ⟨h, -⟩ := Option.filter_eq_some_iff.1 h
  obtain ⟨v, hv, rfl⟩ := Option.map_eq_some_iff.1 h
  exact Tree.mem_nodes_trans (Tree.mem_nodes_of_field? hv) v.bare_mem_nodes

/-- The function of a method: the member itself, or the value of a field. -/
theorem exists_function_of_methodOf? (h : methodOf? s t = some m) : m.node = t ∧
    ∃ g ∈ t.nodes, m.parameters = parametersOf g ∧ m.body = g.field? .body := by
  obtain ⟨name, -, h⟩ := Option.bind_eq_some_iff.1 h
  split at h
  · obtain rfl := Option.some.inj h
    exact ⟨rfl, t, t.self_mem_nodes, rfl, rfl⟩
  · split at h
    · obtain ⟨g, hg, rfl⟩ := Option.map_eq_some_iff.1 h
      exact ⟨rfl, g, mem_nodes_of_functionValue? hg, rfl, rfl⟩
    · simp at h

theorem mem_nodes_of_body {body : Tree} (h : methodOf? s t = some m) (hbody : m.body = some body) :
    body ∈ t.nodes := by
  obtain ⟨-, g, hg, -, hgbody⟩ := exists_function_of_methodOf? h
  exact Tree.mem_nodes_trans hg (Tree.mem_nodes_of_field? (hgbody ▸ hbody))

/-! ### The methods of a class -/

/-- The methods of a class are read off the members of its body. -/
theorem exists_members_of_flowClassOf? {bases : List String} (h : flowClassOf? s bases t = some c) :
    c.methods = (((t.field? .body).map Tree.named).getD []).filterMap (methodOf? s) := by
  obtain ⟨clause, -, h⟩ := Option.bind_eq_some_iff.1 h
  obtain ⟨base, -, h⟩ := Option.bind_eq_some_iff.1 h
  obtain ⟨-, -, h⟩ := Option.bind_eq_some_iff.1 h
  obtain rfl := Option.some.inj h
  rfl

/-- A class is read off its own node. -/
theorem node_of_flowClassOf? {bases : List String} (h : flowClassOf? s bases t = some c) :
    c.node = t := by
  obtain ⟨clause, -, h⟩ := Option.bind_eq_some_iff.1 h
  obtain ⟨base, -, h⟩ := Option.bind_eq_some_iff.1 h
  obtain ⟨-, -, h⟩ := Option.bind_eq_some_iff.1 h
  obtain rfl := Option.some.inj h
  rfl

/-- The flow class is read off a node of the source. -/
theorem exists_node_of_flowClass? {registry : Registry} {config : Config}
    (h : (Flow.of s registry config).flowClass? = some c) : ∃ bases, ∃ t ∈ s.root.nodes,
      flowClassOf? s bases t = some c := by
  unfold flowClass? at h
  split at h
  · next hclasses =>
    have hc : c ∈ (Flow.of s registry config).flowClasses := by
      rw [hclasses, Option.some.inj h]
      exact List.mem_singleton_self c
    obtain ⟨t, ht, hct⟩ := List.mem_filterMap.1 hc
    exact ⟨_, t, List.mem_of_mem_filter ht, hct⟩
  · simp at h

/-- The members of the class that are methods stand below the node of the class. -/
theorem exists_member_of_mem_methods {registry : Registry} {config : Config}
    (h : (Flow.of s registry config).flowClass? = some c) (hm : m ∈ c.methods) :
    ∃ t ∈ s.root.nodes, methodOf? s t = some m := by
  obtain ⟨bases, t, ht, hc⟩ := exists_node_of_flowClass? h
  rw [exists_members_of_flowClassOf? hc] at hm
  obtain ⟨u, hu, hm⟩ := List.mem_filterMap.1 hm
  refine ⟨u, Tree.mem_nodes_trans ht ?_, hm⟩
  cases hbody : t.field? .body with
  | none => simp [hbody] at hu
  | some body =>
    rw [hbody] at hu
    have hchild := Tree.mem_nodes_of_child (Tree.mem_children_of_named hu)
    exact Tree.mem_nodes_trans (Tree.mem_nodes_of_field? hbody) hchild

/-- The body of a method of the class is laid out. -/
theorem laidFrom_of_body {registry : Registry} {config : Config} {body : Tree}
    (hlaid : LaidFrom s.root.start s.root.children s.root.stop)
    (h : (Flow.of s registry config).flowClass? = some c) (hm : m ∈ c.methods)
    (hbody : m.body = some body) : LaidFrom body.start body.children body.stop := by
  obtain ⟨u, hu, hmember⟩ := exists_member_of_mem_methods h hm
  have hnodes := Tree.mem_nodes_trans hu (mem_nodes_of_body hmember hbody)
  exact (Tree.children_of_mem_nodes hlaid hnodes).1

/-- **The methods of a flow class stand one behind the other.** -/
theorem pairwise_methods {registry : Registry} {config : Config}
    (hlaid : LaidFrom s.root.start s.root.children s.root.stop)
    (h : (Flow.of s registry config).flowClass? = some c) :
    c.methods.Pairwise fun m n => m.node.stop ≤ n.node.start := by
  obtain ⟨bases, t, ht, hc⟩ := exists_node_of_flowClass? h
  rw [exists_members_of_flowClassOf? hc]
  cases hbody : t.field? .body with
  | none => exact .nil
  | some body =>
    have hnodes := Tree.mem_nodes_trans ht (Tree.mem_nodes_of_field? hbody)
    have hchildren := (Tree.children_of_mem_nodes hlaid hnodes).1
    have happart := (Tree.pairwise_of_laidFrom hchildren).filter
      fun c => c.isNamed && !c.is .comment
    refine List.Pairwise.filterMap _ (fun u v huv m hm n hn => ?_) happart
    rw [(exists_function_of_methodOf? hm).1, (exists_function_of_methodOf? hn).1]
    exact huv

end Flow

end FlowAnalysis
