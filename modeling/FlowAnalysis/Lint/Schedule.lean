import FlowAnalysis.Trigger

/-!
# Schedules

A flow that runs on a schedule declares when, in five fields.

## Main definitions

* `isScheduleField` — a field of a schedule.
* `Flow.checkSchedule` — the rule.
-/

namespace FlowAnalysis

/-- A nonempty run of characters of a class. -/
def isRun (p : Char → Bool) (text : List Char) : Bool := text ≠ [] && text.all p

/-- The values that an item of a field names: all, one, or a range. -/
def isScheduleRange (text : List Char) : Bool :=
  text = ['*'] ||
    match Text.splitAt (· = '-') text with
    | [a] => isRun Char.isAlphanum a
    | [a, b] => isRun Char.isAlphanum a && isRun Char.isAlphanum b
    | _ => false

/-- An item of a field: values, and perhaps a step. -/
def isScheduleItem (text : List Char) : Bool :=
  match Text.splitAt (· = '/') text with
  | [range] => isScheduleRange range
  | [range, step] => isScheduleRange range && isRun Char.isDigit step
  | _ => false

/-- A field of a schedule: items with commas between them. -/
def isScheduleField (text : List Char) : Bool :=
  (Text.splitAt (· = ',') text).all isScheduleItem

/-- What is wrong with a schedule. -/
def scheduleFindings (schedule : String) : List Finding :=
  let fields := Text.words schedule.toList
  if fields.length ≠ 5 then [.scheduleFieldCount schedule fields.length]
  else
    (fields.filter fun w => !isScheduleField w).map fun w =>
      .scheduleField schedule (String.ofList w)

/-- Checks the schedule that the flow class declares. -/
def Flow.checkSchedule (f : Flow) : List Diagnostic :=
  match f.flowClass? with
  | none => []
  | some c =>
    let anchor := ((c.field? Trigger.scheduleField).map (·.node)).getD c.node
    let found :=
      match f.scheduleOf? c with
      | some schedule => scheduleFindings schedule
      | none =>
        if f.eventOf? c = some Trigger.cronEvent then
          [.scheduleMissing Trigger.cronEvent Trigger.scheduleField]
        else []
    found.map (f.diagnosticAt anchor)

end FlowAnalysis
