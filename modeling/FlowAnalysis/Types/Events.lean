import FlowAnalysis.Syntax.Source

/-!
# The built-in types of payloads

The shapes of the events that set flows off, as declarations that a flow may use without making
them itself.

## Main definitions

* `builtinEvents` — the declarations.
-/

namespace FlowAnalysis

/-- The declarations of the built-in events. -/
def builtinEventsText : String := String.intercalate "\n" [
  "interface BubbleTriggerEvent \x7b",
  "  type: string;",
  "  timestamp: string;",
  "  executionId: string;",
  "  path: string;",
  "  body?: Record<string, unknown>;",
  "\x7d",
  "interface WebhookEvent extends BubbleTriggerEvent \x7b",
  "  method?: string;",
  "  headers?: Record<string, string>;",
  "  query?: Record<string, string>;",
  "\x7d",
  "interface CronEvent extends BubbleTriggerEvent \x7b",
  "  cron: string;",
  "  body?: Record<string, unknown>;",
  "\x7d",
  "interface SlackEventBase extends BubbleTriggerEvent \x7b",
  "  slack_event: Record<string, unknown>;",
  "  channel: string;",
  "  user: string;",
  "  text: string;",
  "  thread_ts?: string;",
  "\x7d",
  "interface SlackMentionEvent extends SlackEventBase \x7b",
  "  bot_id?: string;",
  "\x7d",
  "interface SlackMessageReceivedEvent extends SlackEventBase \x7b",
  "  channel_type?: string;",
  "\x7d",
  "interface GmailEmailReceivedEvent extends BubbleTriggerEvent \x7b",
  "  from: string;",
  "  to: string;",
  "  subject: string;",
  "  snippet: string;",
  "  messageId: string;",
  "\x7d"]

/-- The source of the built-in events. -/
def builtinEvents : Option Syntax.Source := (Syntax.Source.parse builtinEventsText).toOption

end FlowAnalysis
