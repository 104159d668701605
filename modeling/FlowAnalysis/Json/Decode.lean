import FlowAnalysis.Json.Value

/-!
# From JSON values to domain values

A decoder answers nothing when a value does not have the expected form.  A record may be written
as an object, whose unknown entries are ignored and whose known ones must not be repeated, or as
an array of its fields in their order.

## Main definitions

* `Json.Fields` — a value seen as a record with named fields.
* `Fields.required`, `Fields.optional`, `Fields.withDefault` — the decoded value of one field.
* `Json.tagged?` — a value that says by its entry `type` which of several forms it has.
-/

namespace FlowAnalysis.Json

variable {α : Type}

/-! ### Single values -/

/-- A truth value. -/
def asBool? : Json → Option Bool
  | bool b => some b
  | _ => none

/-- A text. -/
def asString? : Json → Option String
  | string s => some s
  | _ => none

/-- A natural number below a bound. -/
def asNat? (bound : Nat) : Json → Option Nat
  | number (.int (.ofNat n)) => if n < bound then some n else none
  | _ => none

/-- A natural number of 64 bits. -/
def asSize? : Json → Option Nat := asNat? (Nat.pow 2 64)

/-- A list. -/
def asList? (item : Json → Option α) : Json → Option (List α)
  | array items => items.mapM item
  | _ => none

/-- A list of texts. -/
def asStrings? : Json → Option (List String) := asList? asString?

/-- The decoded entries of an object. -/
def decodeEntries? (value : Json → Option α) (entries : List (String × Json)) :
    Option (List (String × α)) :=
  entries.mapM fun e => (value e.2).map (e.1, ·)

/-- A map in the order of the text. -/
def asMap? (value : Json → Option α) : Json → Option (List (String × α))
  | object entries => (decodeEntries? value entries).map Keyed.ofList
  | _ => none

/-- A value that `null` may stand for the lack of. -/
def asOption? (decode : Json → Option α) : Json → Option (Option α)
  | null => some none
  | v => (decode v).map some

/-- Any value that has a meaning. -/
def asAny? (v : Json) : Option Json := if v.usable then some v.canonical else none

/-- One of several words, alone or as the only key of an object that says nothing else. -/
def asWord? (choices : List (String × α)) : Json → Option α
  | string s => Keyed.get? choices s
  | object [(s, null)] => Keyed.get? choices s
  | _ => none

/-! ### Records -/

/-- A value seen as a record: the entries that are fields of the record. -/
structure Fields where
  entries : List (String × Json)
  /-- Whether the record was written as an array of its fields. -/
  positional : Bool

/-- A value as a record with the given fields in their order. -/
def fields? (names : List String) : Json → Option Fields
  | object entries =>
    let known := entries.filter fun e => names.contains e.1
    if (known.map (·.1)).Nodup then some ⟨known, false⟩ else none
  | array items => if items.length ≤ names.length then some ⟨names.zip items, true⟩ else none
  | _ => none

namespace Fields

/-- The value of a field, if it is there. -/
def get? (f : Fields) (name : String) : Option Json := Keyed.get? f.entries name

/-- A field that must be there. -/
def required (f : Fields) (name : String) (decode : Json → Option α) : Option α :=
  (f.get? name).bind decode

/-- A field that may be absent, for which a value stands in. -/
def withDefault (f : Fields) (name : String) (decode : Json → Option α) (default : α) :
    Option α :=
  match f.get? name with
  | some v => decode v
  | none => some default

/-- A field that may be absent or `null`. -/
def optional (f : Fields) (name : String) (decode : Json → Option α) : Option (Option α) :=
  f.withDefault name (asOption? decode) none

/-- A field that may be `null`, and absent unless the record is written as an array. -/
def nullable (f : Fields) (name : String) (decode : Json → Option α) : Option (Option α) :=
  match f.get? name with
  | some v => asOption? decode v
  | none => if f.positional then none else some none

end Fields

/-! ### Values of several forms -/

/-- The form that a tag names, or whose number among some forms it gives. -/
def formOf? (numbered : List String) : Json → Option String
  | string tag => some tag
  | number (.int (.ofNat i)) => numbered[i]?
  | _ => none

/-- A value that says which form it has: the name of the form and the rest of the value.  Inside
another value of several forms the number of the form may stand for its name. -/
def tagged? (numbered : List String) : Json → Option (String × Json)
  | object entries =>
    match entries.filter (·.1 == "type") with
    | [(_, tag)] => (formOf? numbered tag).map (·, .object (entries.filter (·.1 != "type")))
    | _ => none
  | array (tag :: items) => (formOf? numbered tag).map (·, .array items)
  | _ => none

/-- The rest of a tagged value that has nothing to add to its tag. -/
def nothingMore (a : α) : Json → Option α
  | array (_ :: _) => none
  | _ => some a

end FlowAnalysis.Json
