import FlowAnalysis.Credentials

/-!
# Parameters against contracts

The parameters of a construction are compared with the contract of its class.  Values that are
computed elsewhere are trusted.

## Main definitions

* `FieldSchema.check`, `ObjectSchema.check` — a value against a schema.
* `Contract.check` — the parameters of a construction against a contract.
* `Flow.checkParameters` — all constructions of a flow.
-/

namespace FlowAnalysis

open Syntax

/-- A finding at a node of a source. -/
abbrev Located := Finding × Tree

/-- Whether something in an object is not a plain property. -/
def hasSpread (entries : List Entry) : Bool := entries.any fun e => e.key?.isNone

/-- Whether an object has a plain property with a key. -/
def hasKey (entries : List Entry) (key : String) : Bool :=
  entries.any fun e => e.key? = some key

/-- Where a check has got to. -/
structure Place where
  /-- The class whose parameters are checked. -/
  className : String
  /-- The path of the value that is checked. -/
  path : String
  /-- The name of the type that the value should have. -/
  typeName : String

namespace Place

/-- The path of a property. -/
def join (p : Place) (key : String) : String :=
  if p.path = "" then key else p.path ++ "." ++ key

/-- The place of a property. -/
def property (p : Place) (key : String) : Place :=
  { p with path := p.join key, typeName := p.typeName ++ "['" ++ key ++ "']" }

/-- The place of an element of an array. -/
def element (p : Place) (i : Nat) : Place :=
  { p with path := p.path ++ "[" ++ toString i ++ "]" }

/-- A value of a wrong type. -/
def mismatch (p : Place) (actual expected : String) (t : Tree) : Located :=
  (.typeMismatch actual expected p.path p.className, t)

/-- A property that lacks. -/
def missing (p : Place) (key : String) (t : Tree) : Located :=
  (.missingProperty (p.join key) p.className p.typeName, t)

end Place

/-- The type of a value as it is shown. -/
def shownType (a : Argument) : String := a.typeName?.getD "unknown"

/-- A text in quotes. -/
def inQuotes (s : String) : String := "\"" ++ s ++ "\""

/-- The value of a literal as it is shown: a text itself, of other values the type. -/
def shownValue : Argument → String
  | .string s => inQuotes s
  | a => shownType a

/-- Whether a key at a place is looked after elsewhere: the credentials of the construction, and
the discriminator. -/
def isExempt (p : Place) (discriminator : Option String) (key : String) : Bool :=
  p.path = "" && key = credentialsName || discriminator = some key

mutual

/-- Checks a value against a schema; findings are placed at a node. -/
def FieldSchema.check (p : Place) (t : Tree) (a : Argument) : FieldSchema → List Located
  | .any => []
  | .string values =>
    match a with
    | .reference | .computed | .undefined => []
    | .string s =>
      match values with
      | some (v :: vs) =>
        if (v :: vs).contains s then []
        else [p.mismatch (inQuotes s) (FieldSchema.string values).describe t]
      | _ => []
    | a => [p.mismatch (shownType a) (FieldSchema.string values).describe t]
  | .number =>
    match a with
    | .reference | .computed | .undefined | .number _ => []
    | a => [p.mismatch (shownType a) FieldSchema.number.describe t]
  | .boolean =>
    match a with
    | .reference | .computed | .undefined | .bool _ => []
    | a => [p.mismatch (shownType a) FieldSchema.boolean.describe t]
  | .literal value =>
    match a with
    | .reference | .computed | .undefined => []
    | a =>
      if (a.toJson?).any value.same then []
      else [p.mismatch (shownValue a) (FieldSchema.literal value).describe t]
  | .array items =>
    match a with
    | .reference | .computed | .undefined => []
    | .array elements =>
      (elements.mapIdx fun i e => FieldSchema.check (p.element i) t e items).flatten
    | a => [p.mismatch (shownType a) (FieldSchema.array items).describe t]
  | .object schema =>
    match a with
    | .reference | .computed | .undefined => []
    | .object entries =>
      ObjectSchema.check { p with typeName := schema.name.getD p.typeName } none t entries schema
    | a => [p.mismatch (shownType a) (FieldSchema.object schema).describe t]
  | .oneOf variants =>
    match a with
    | .reference | .computed | .undefined => []
    | a =>
      if FieldSchema.anyAccepts p t a variants then []
      else [p.mismatch (shownType a) (FieldSchema.oneOf variants).describe t]

/-- Whether one of several schemas finds no fault with a value. -/
def FieldSchema.anyAccepts (p : Place) (t : Tree) (a : Argument) : List FieldSchema → Bool
  | [] => false
  | s :: rest => (FieldSchema.check p t a s).isEmpty || FieldSchema.anyAccepts p t a rest

/-- Checks a property against the schema of its key, if there is one. -/
def FieldSchema.checkNamed (p : Place) (key : String) (t : Tree) (a : Argument) :
    List (String × FieldSchema) → Option (List Located)
  | [] => none
  | (k, s) :: rest =>
    if k = key then some (FieldSchema.check (p.property key) t a s)
    else FieldSchema.checkNamed p key t a rest

/-- Checks the entries of an object against a schema; what lacks is placed at a node. -/
def ObjectSchema.check (p : Place) (discriminator : Option String) (anchor : Tree)
    (entries : List Entry) : ObjectSchema → List Located
  | ⟨_, properties, required, additional⟩ =>
    let present := entries.flatMap fun
      | .property key keyNode value valueNode =>
        if isExempt p discriminator key then []
        else
          match FieldSchema.checkNamed p key valueNode value properties with
          | some found => found
          | none => if additional then [] else [(.unknownProperty key p.typeName, keyNode)]
      | _ => []
    let absent :=
      if hasSpread entries then []
      else
        (required.filter fun key =>
          !isExempt p discriminator key && !hasKey entries key).map (p.missing · anchor)
    present ++ absent

end

/-- Checks the discriminator of a union, and the entries against the variant that it chooses. -/
def Contract.checkUnion (p : Place) (discriminator : String)
    (variants : List (String × ObjectSchema)) (anchor : Tree) (entries : List Entry) :
    List Located :=
  let chosen := { p with path := discriminator }
  match (Argument.object entries).property? discriminator with
  | some (.property _ _ (.string s) valueNode) =>
    match Keyed.get? variants s with
    | some schema =>
      schema.check { p with typeName := schema.name.getD p.typeName } (some discriminator) anchor
        entries
    | none =>
      [chosen.mismatch (inQuotes s)
        (joined alternativeMark (variants.map fun e => inQuotes e.1)) valueNode]
  | some (.property _ _ value valueNode) =>
    match value.typeName? with
    | some actual => [chosen.mismatch actual "string" valueNode]
    | none => []
  | some _ => []
  | none => if hasSpread entries then [] else [p.missing discriminator anchor]

/-- Checks the entries of a construction against a contract. -/
def Contract.check (c : Contract) (p : Place) (anchor : Tree) (entries : List Entry) :
    List Located :=
  match c with
  | .object schema => schema.check p none anchor entries
  | .union discriminator variants => checkUnion p discriminator variants anchor entries

namespace Flow

/-- Checks the parameters of a construction. -/
def checkConstruction (f : Flow) (registry : Registry) (c : Construction) : List Located :=
  match registry.resolve? c.className, c.paramsObject? with
  | some d, some params =>
    d.contract.check ⟨c.className, "", d.paramsTypeName⟩ params (f.source.classify params).entries
  | _, _ => []

/-- Checks the parameters of all constructions. -/
def checkParameters (f : Flow) (registry : Registry) : List Diagnostic :=
  (f.constructions.flatMap (f.checkConstruction registry)).map fun (finding, t) =>
    f.diagnosticAt t finding

end Flow

end FlowAnalysis
