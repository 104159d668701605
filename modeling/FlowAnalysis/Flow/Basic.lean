import FlowAnalysis.Config
import FlowAnalysis.Diagnostic
import FlowAnalysis.Flow.Argument
import FlowAnalysis.Registry
import FlowAnalysis.Syntax.Walk

/-!
# Flows

What every analysis of a flow looks at: the imports, the classes that extend the base class of
flows, and the constructions of bubbles.

## Main definitions

* `Import`, `Method`, `Field`, `FlowClass`, `Construction` — the parts of a flow.
* `Flow.of` — the parts of a source.
* `Flow.flowClass?`, `Flow.entryMethod?` — the class and the method in which a flow begins.
-/

namespace FlowAnalysis

open Syntax

/-- A name that is imported from a module. -/
structure Import where
  localName : String
  imported : String
  module : String
  deriving DecidableEq, Repr, Inhabited

/-- A method of a class, or a field whose value is a function. -/
structure Method where
  name : String
  node : Tree
  parameters : List Tree
  body : Option Tree
  isStatic : Bool
  deriving Inhabited

/-- A field of a class. -/
structure Field where
  name : String
  node : Tree
  value : Option Tree
  deriving Inhabited

/-- A class that extends the base class of flows. -/
structure FlowClass where
  name : String
  node : Tree
  /-- The type arguments of the base class. -/
  typeArguments : Option Tree
  methods : List Method
  fields : List Field
  deriving Inhabited

namespace FlowClass

/-- The method of instances with a name. -/
def method? (c : FlowClass) (name : String) : Option Method :=
  c.methods.find? fun m => m.name = name && !m.isStatic

/-- The field with a name. -/
def field? (c : FlowClass) (name : String) : Option Field :=
  c.fields.find? fun f => f.name = name

end FlowClass

/-- A construction of a bubble. -/
structure Construction where
  node : Tree
  /-- The name under which the class was exported. -/
  className : String
  arguments : List Tree
  /-- The variable, field or member that receives the bubble. -/
  binding : Option String
  deriving Inhabited

/-- The first argument of a construction, if it is an object. -/
def Construction.paramsObject? (c : Construction) : Option Tree :=
  match c.arguments with
  | first :: _ => if first.bare.is .object then some first.bare else none
  | [] => none

/-- The parts of a source that analyses look at. -/
structure Flow where
  source : Source
  imports : List Import
  flowClasses : List FlowClass
  /-- The constructions of bubbles in reading order. -/
  constructions : List Construction
  /-- The name of the method in which flows begin. -/
  entryMethodName : String

namespace Flow

/-! ### Imports -/

/-- An entry of a list of imports. -/
def importOf? (s : Source) (module : String) (t : Tree) : Option Import :=
  (t.field? .name).map fun name =>
    ⟨s.textOf ((t.field? .alias).getD name), s.textOf name, module⟩

/-- The names that a statement imports. -/
def importsOfStatement (s : Source) (t : Tree) : List Import :=
  match (t.field? .source).bind s.stringValue? with
  | some module => (t.nodes.filter (·.is .importSpecifier)).filterMap (importOf? s module)
  | none => []

/-- The names that a source imports. -/
def importsOf (s : Source) : List Import :=
  (s.root.named.filter (·.is .importStatement)).flatMap (importsOfStatement s)

/-! ### Classes -/

/-- The parameters of a function: the entries of its list, or its only name. -/
def parametersOf (t : Tree) : List Tree :=
  match t.field? .parameters with
  | some list => list.named
  | none => (t.field? .parameter).toList

/-- The name of a member of a class. -/
def memberName (s : Source) (t : Tree) : String :=
  if t.is .string then (s.stringValue? t).getD "" else s.textOf t

/-- Whether a member belongs to the class itself. -/
def isStatic (t : Tree) : Bool := t.children.any (·.isToken "static")

/-- The function that is the value of a field. -/
def functionValue? (t : Tree) : Option Tree :=
  ((t.field? .value).map Tree.bare).filter (·.isAny [.arrowFunction, .functionExpression])

/-- The method that a member of a class is. -/
def methodOf? (s : Source) (t : Tree) : Option Method :=
  (t.field? .name).bind fun name =>
    if t.is .methodDefinition then
      some ⟨memberName s name, t, parametersOf t, t.field? .body, isStatic t⟩
    else if t.is .fieldDefinition then
      (functionValue? t).map fun f =>
        ⟨memberName s name, t, parametersOf f, f.field? .body, isStatic t⟩
    else none

/-- The field that a member of a class is. -/
def fieldOf? (s : Source) (t : Tree) : Option Field :=
  if t.is .fieldDefinition then
    (t.field? .name).map fun name => ⟨memberName s name, t, t.field? .value⟩
  else none

/-- The clause that names the base of a class. -/
def extendsClause? (t : Tree) : Option Tree :=
  (t.named.find? (·.is .classHeritage)).bind fun h => h.named.find? (·.is .extendsClause)

/-- The name of the base of a class; of a base inside a namespace the last part. -/
def baseName? (s : Source) (clause : Tree) : Option String :=
  ((clause.field? .value).or clause.firstNamed?).bind fun base =>
    if base.is .memberExpression then (base.field? .property).map s.textOf
    else some (s.textOf base)

/-- The class that a node is, if its base has one of the given names. -/
def flowClassOf? (s : Source) (bases : List String) (t : Tree) : Option FlowClass := do
  let clause ← extendsClause? t
  let base ← baseName? s clause
  guard (bases.contains base)
  let members := ((t.field? .body).map Tree.named).getD []
  return {
    name := ((t.field? .name).map s.textOf).getD "(anonymous)"
    node := t
    typeArguments := (clause.field? .typeArguments).or
      (clause.named.find? (·.is .typeArguments))
    methods := members.filterMap (methodOf? s)
    fields := members.filterMap (fieldOf? s) }

/-- The names under which a source knows the base class of flows. -/
def baseNames (config : Config) (imports : List Import) : List String :=
  config.baseClass ::
    (imports.filter (·.imported = config.baseClass)).map (·.localName)

/-! ### Constructions -/

/-- What receives the value of a child: the name that is declared, or the target of an
assignment.  A wrapper passes on what receives its own value. -/
def receiver (parent : Tree) (outer : Option Tree) (child : Tree) : Option Tree :=
  if parent.isWrapper then outer
  else if parent.isAny [.variableDeclarator, .fieldDefinition] then
    if child.role = some .value then parent.field? .name else none
  else if parent.is .assignmentExpression then
    if child.role = some .right then parent.field? .left else none
  else none

/-- The nodes of a kind in reading order, each with what receives its value. -/
def received (kind : Kind) (root : Tree) : List (Tree × Option Tree) :=
  (root.walkWith receiver (fun _ _ => .enter) none).filter (·.1.is kind)

/-- The text of a target that gives a bubble a name. -/
def bindingOf? (s : Source) (target : Option Tree) : Option String :=
  (target.filter (·.isAny [.identifier, .propertyIdentifier, .memberExpression])).map s.textOf

/-- The class that a construction names: as it was exported, and the module that it was imported
from. -/
def constructed? (s : Source) (imports : List Import) (t : Tree) :
    Option (String × Option String) :=
  (t.field? .constructor).bind fun c =>
    if c.bare.is .identifier then
      let name := s.textOf c.bare
      match imports.reverse.find? (·.localName = name) with
      | some i => some (i.imported, some i.module)
      | none => some (name, none)
    else if c.bare.is .memberExpression then
      (c.bare.field? .property).map fun p => (s.textOf p, none)
    else none

/-- Whether a class is a bubble: it is registered, comes from a core module, or is named like
one. -/
def isBubble (registry : Registry) (config : Config) (className : String)
    (module : Option String) : Bool :=
  registry.contains className || module.any config.coreModules.contains ||
    config.isPrimitiveName className

/-- The construction of a bubble that a node is. -/
def constructionOf? (s : Source) (imports : List Import) (registry : Registry) (config : Config)
    (t : Tree) (target : Option Tree) : Option Construction := do
  let (className, module) ← constructed? s imports t
  guard (isBubble registry config className module)
  return ⟨t, className, ((t.field? .arguments).map Tree.named).getD [], bindingOf? s target⟩

/-! ### Flows -/

/-- The parts of a source that analyses look at. -/
def of (s : Source) (registry : Registry) (config : Config) : Flow :=
  let imports := importsOf s
  let bases := baseNames config imports
  { source := s
    imports
    flowClasses := (s.root.nodes.filter (·.isAny [.classDeclaration, .classExpression])).filterMap
      (flowClassOf? s bases)
    constructions := (received .newExpression s.root).filterMap fun (t, target) =>
      constructionOf? s imports registry config t target
    entryMethodName := config.entryMethod }

/-- The flow class, if there is exactly one. -/
def flowClass? (f : Flow) : Option FlowClass :=
  match f.flowClasses with
  | [c] => some c
  | _ => none

/-- The method in which the flow begins. -/
def entryMethod? (f : Flow) : Option Method :=
  f.flowClass?.bind (·.method? f.entryMethodName)

/-- The text of a node. -/
def textOf (f : Flow) (t : Tree) : String := f.source.textOf t

/-- A finding at the beginning of a node. -/
def diagnosticAt (f : Flow) (t : Tree) (finding : Finding) : Diagnostic :=
  ⟨finding, some (f.source.startOf t)⟩

end Flow

end FlowAnalysis
