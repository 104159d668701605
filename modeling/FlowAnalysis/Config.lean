import FlowAnalysis.Json.Decode
import FlowAnalysis.Json.Reader

/-!
# The configuration of the analysis

Every setting has a default, so a configuration may name only those that it changes.

## Main definitions

* `Config`, `LintConfig` — the settings.
* `Config.isPrimitiveName` — whether a class counts as a bubble by its name alone.
* `Config.ofText?` — the configuration of a text of JSON.
-/

namespace FlowAnalysis

/-- The settings of the style rules. -/
structure LintConfig where
  /-- The complexity that a method may have. -/
  maxComplexity : Nat
  /-- The rules that are left out. -/
  disabled : List String
  deriving DecidableEq, Repr

namespace LintConfig

/-- The settings that hold unless others are given. -/
def standard : LintConfig := ⟨20, []⟩

instance : Inhabited LintConfig := ⟨standard⟩

/-- Whether a rule is to be checked. -/
def isEnabled (c : LintConfig) (rule : String) : Bool := !c.disabled.contains rule

/-- Reads the settings of the style rules. -/
def ofJson? (v : Json) : Option LintConfig := do
  let f ← v.fields? ["max_complexity", "disabled"]
  return ⟨← f.withDefault "max_complexity" Json.asSize? standard.maxComplexity,
    ← f.withDefault "disabled" Json.asStrings? standard.disabled⟩

/-- The settings of the style rules as a value. -/
def toJson (c : LintConfig) : Json :=
  .object [("max_complexity", Json.nat c.maxComplexity), ("disabled", Json.strings c.disabled)]

end LintConfig

/-- The settings of the analysis. -/
structure Config where
  /-- The class that every flow extends. -/
  baseClass : String
  /-- The method in which every flow begins. -/
  entryMethod : String
  /-- The modules whose classes are bubbles. -/
  coreModules : List String
  /-- The ends of class names that mark a bubble. -/
  primitiveSuffixes : List String
  /-- How many characters a text may have before it counts as long. -/
  longTextThreshold : Nat
  lint : LintConfig
  deriving DecidableEq, Repr

namespace Config

/-- The settings that hold unless others are given. -/
def standard : Config :=
  ⟨"BubbleFlow", "handle", ["@bubblelab/bubble-core"], ["Bubble"], 120, .standard⟩

instance : Inhabited Config := ⟨standard⟩

/-- Whether a class counts as a bubble by its name alone: something stands in front of one of the
marking ends. -/
def isPrimitiveName (c : Config) (className : String) : Bool :=
  let name := className.toList
  c.primitiveSuffixes.any fun ending =>
    ending.toList.length < name.length && ending.toList.isSuffixOf name

/-- Reads the settings of the analysis. -/
def ofJson? (v : Json) : Option Config := do
  let f ← v.fields?
    ["base_class", "entry_method", "core_modules", "primitive_suffixes", "long_text_threshold",
      "lint"]
  return ⟨← f.withDefault "base_class" Json.asString? standard.baseClass,
    ← f.withDefault "entry_method" Json.asString? standard.entryMethod,
    ← f.withDefault "core_modules" Json.asStrings? standard.coreModules,
    ← f.withDefault "primitive_suffixes" Json.asStrings? standard.primitiveSuffixes,
    ← f.withDefault "long_text_threshold" Json.asSize? standard.longTextThreshold,
    ← f.withDefault "lint" LintConfig.ofJson? standard.lint⟩

/-- The settings of the analysis as a value. -/
def toJson (c : Config) : Json :=
  .object [("base_class", .string c.baseClass), ("entry_method", .string c.entryMethod),
    ("core_modules", Json.strings c.coreModules),
    ("primitive_suffixes", Json.strings c.primitiveSuffixes),
    ("long_text_threshold", Json.nat c.longTextThreshold), ("lint", c.lint.toJson)]

/-- The configuration of a text. -/
def ofText? (text : String) : Option Config := (Json.ofText? text).bind ofJson?

end Config

end FlowAnalysis
