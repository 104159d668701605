import FlowAnalysis.Flow.Basic

/-!
# Triggers

What sets a flow off, as far as its class says so.

## Main definitions

* `Trigger` — the event and the schedule that a flow class declares.
* `Flow.trigger?` — the trigger of a flow.
-/

namespace FlowAnalysis

open Syntax

/-- What sets a flow off. -/
structure Trigger where
  eventType : Option String
  cronSchedule : Option String
  deriving DecidableEq, Repr, Inhabited

namespace Trigger

/-- The field that declares a schedule. -/
def scheduleField : String := "cronSchedule"

/-- The event of flows that run on a schedule. -/
def cronEvent : String := "schedule/cron"

/-- A trigger as a value. -/
def toJson (t : Trigger) : Json :=
  .object (Json.entry? "event_type" (t.eventType.map Json.string) ++
    Json.entry? "cron_schedule" (t.cronSchedule.map Json.string))

end Trigger

/-- The text that a type is, if it is a literal. -/
def Syntax.Source.literalType? (s : Source) (t : Tree) : Option String :=
  (if t.is .literalType then t.firstNamed? else some t).bind s.stringValue?

namespace Flow

/-- The event that a class names in the type arguments of its base. -/
def eventOf? (f : Flow) (c : FlowClass) : Option String :=
  (c.typeArguments.bind Tree.firstNamed?).bind f.source.literalType?

/-- The schedule that a class declares. -/
def scheduleOf? (f : Flow) (c : FlowClass) : Option String :=
  ((c.field? Trigger.scheduleField).bind (·.value)).bind fun v => f.source.stringValue? v.bare

/-- The trigger that the flow class declares. -/
def trigger? (f : Flow) : Option Trigger :=
  f.flowClass?.bind fun c =>
    let t : Trigger := ⟨f.eventOf? c, f.scheduleOf? c⟩
    if t = ⟨none, none⟩ then none else some t

end Flow

end FlowAnalysis
