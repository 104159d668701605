import FlowAnalysis.Lint.Complexity
import FlowAnalysis.Lint.DynamicCode
import FlowAnalysis.Lint.Environment
import FlowAnalysis.Lint.Schedule
import FlowAnalysis.Lint.Secret

/-!
# Style rules

Rules that run after all other checks, each of which can be switched off by its name.

## Main definitions

* `Rule` — a rule.
* `Rule.builtin` — the rules that are always there.
* `Rule.contains` — a rule of the host that looks for a text in the source.
* `runRules` — what the rules find that are not switched off.
-/

namespace FlowAnalysis

/-- A style rule. -/
structure Rule where
  name : String
  check : Flow → Config → List Diagnostic

namespace Rule

/-- The rules that are always there, in their order. -/
def builtin : List Rule :=
  [⟨"no-process-env-bulk", fun f _ => f.checkEnvironment⟩,
   ⟨"max-complexity", Flow.checkComplexity⟩,
   ⟨"no-dynamic-code", fun f _ => f.checkDynamicCode⟩,
   ⟨"no-hardcoded-secret", fun f _ => f.checkSecrets⟩,
   ⟨"cron-schedule", fun f _ => f.checkSchedule⟩]

/-- The rule that is always there under a name. -/
def builtin? (name : String) : Option Rule := builtin.find? (·.name = name)

/-- The name of the rules of the host that look for a text. -/
def containsName : String := "host-contains"

/-- A rule of the host: a text that must not stand anywhere in the source. -/
def contains (part message : String) : Rule :=
  ⟨containsName, fun f _ =>
    if Text.occursIn part.toList f.source.text.toList then
      [⟨.host containsName message, none⟩]
    else []⟩

end Rule

/-- What the rules find that are not switched off. -/
def runRules (rules : List Rule) (f : Flow) (config : Config) : List Diagnostic :=
  (rules.filter fun r => config.lint.isEnabled r.name).flatMap fun r => r.check f config

end FlowAnalysis
