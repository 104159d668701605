import FlowAnalysis.Proofs.Members
import FlowAnalysis.Types.Payload

/-!
# What is read as it is written

Most of what an analysis reads off a source does not depend on how it is written.  The exceptions
are texts that are compared with names and texts that get into messages.

## Main definitions

* `Flow.compared` — the nodes whose texts are compared with names.
* `Flow.receivers` — the nodes whose texts may become names of variables.
* `Flow.quoted` — the nodes whose texts are quoted.
-/

namespace FlowAnalysis

open Syntax

/-! ### Texts that are compared -/

/-- What a class names as its base. -/
def Syntax.Tree.base? (t : Tree) : Option Tree :=
  (Flow.extendsClause? t).bind fun clause => (clause.field? .value).or clause.firstNamed?

namespace Flow

/-- The members of the body of a class. -/
def membersOf (t : Tree) : List Tree := ((t.field? .body).map Tree.named).getD []

/-- The nodes whose texts are compared with names: the bases of classes, and what members of the
flow classes are called. -/
def compared (f : Flow) : List Tree :=
  (f.source.root.nodes.filter (·.isAny [.classDeclaration, .classExpression])).filterMap
      Tree.base? ++
    f.flowClasses.flatMap fun c => (membersOf c.node).filterMap (·.field? .name)

/-- The nodes that receive what is constructed. -/
def receivers (f : Flow) : List Tree := (received .newExpression f.source.root).filterMap (·.2)

/-- The function that a member of a class is: the member itself, or the value of a field. -/
def functionOf? (t : Tree) : Option Tree :=
  if t.is .methodDefinition then some t else functionValue? t

/-! ### Texts that are quoted -/

variable {f : Flow}

/-- The node of the type that the payload is annotated with. -/
def payloadType? (f : Flow) : Option Tree :=
  (f.entryMethod?.bind fun m => m.parameters.head?).bind fun p =>
    (p.field? .type).bind Tree.firstNamed?

/-- The nodes whose texts are quoted: the names of flow classes, the type arguments of their bases,
and the type of the payload. -/
def quoted (f : Flow) : List Tree :=
  f.flowClasses.flatMap (fun c => (c.node.field? .name).toList ++ c.typeArguments.toList) ++
    f.payloadType?.toList

theorem mem_quoted_of_name {c : FlowClass} (hc : c ∈ f.flowClasses) {t : Tree}
    (ht : t ∈ c.node.field? .name) : t ∈ f.quoted :=
  List.mem_append_left _ (List.mem_flatMap.2 ⟨c, hc, List.mem_append_left _ (Option.mem_toList.2 ht)⟩)

theorem mem_quoted_of_typeArguments {c : FlowClass} (hc : c ∈ f.flowClasses) {t : Tree}
    (ht : t ∈ c.typeArguments) : t ∈ f.quoted :=
  List.mem_append_left _
    (List.mem_flatMap.2 ⟨c, hc, List.mem_append_right _ (Option.mem_toList.2 ht)⟩)

theorem mem_quoted_of_payloadType? {t : Tree} (ht : t ∈ f.payloadType?) : t ∈ f.quoted :=
  List.mem_append_right _ (Option.mem_toList.2 ht)

/-- The type that the first parameter of the entry method is annotated with is quoted. -/
theorem mem_quoted_of_annotated {entry : Method} {parameter type : Tree}
    (hentry : f.entryMethod? = some entry) (hparameter : entry.parameters.head? = some parameter)
    (htype : (parameter.field? .type).bind Tree.firstNamed? = some type) : type ∈ f.quoted := by
  refine mem_quoted_of_payloadType? ?_
  simp only [payloadType?, hentry, hparameter, Option.bind_some]
  exact htype

theorem mem_flowClasses_of_flowClass? {c : FlowClass} (h : f.flowClass? = some c) :
    c ∈ f.flowClasses := by
  unfold flowClass? at h
  split at h
  · next heq =>
    rw [heq]
    exact List.mem_singleton.2 (Option.some.inj h).symm
  · cases h

end Flow

end FlowAnalysis
