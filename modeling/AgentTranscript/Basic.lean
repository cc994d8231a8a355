import Mathlib

/-!
Data shared by every module: the error type, harness identities and the parts
of a txcript transcript that this program reads.
-/

set_option autoImplicit false

namespace AgentTranscript

/-- `chrono::DateTime<Utc>` as nanoseconds since the Unix epoch. -/
abbrev DateTime := Int

inductive Error where
  | msg (message : String)
  | io (message : String)
  | json (message : String)
  | crypto (key : String)
  | format (key : String)
  | schema (schema : Nat)
  | precondition
  | ambiguous (harness sessionId : String)
  deriving DecidableEq, Repr

def Error.display : Error → String
  | .msg message => message
  | .io message => message
  | .json message => message
  | .crypto key => s!"object `{key}` failed authentication"
  | .format key => s!"object `{key}` has an unrecognized archive header"
  | .schema version => s!"unsupported schema {version}"
  | .precondition => "catalog was updated concurrently"
  | .ambiguous harness sessionId =>
      s!"local and remote copies of {harness} session {sessionId} differ and neither is newer"

inductive HarnessId where
  | claudeCode
  | codex
  | pi
  | campfire
  | cursor
  | amp
  | antigravity
  | cowork
  | grok
  | grokBot
  | fx
  | hermes
  | cursorDesktop
  | openCode
  | claudeChat
  | chatGpt
  | simple
  deriving DecidableEq, Repr

/-- Names of harnesses, which txcript defines: `as_str` is the stable name that
keys and sort orders are built from, `display` is what messages print. -/
class HarnessNames where
  asStr : HarnessId → String
  display : HarnessId → String
  asStr_injective : Function.Injective asStr
  asStr_oneLine : ∀ harness, '\n' ∉ (asStr harness).toList

def HarnessId.snakeCase : HarnessId → String
  | .claudeCode => "claude_code"
  | .codex => "codex"
  | .pi => "pi"
  | .campfire => "campfire"
  | .cursor => "cursor"
  | .amp => "amp"
  | .antigravity => "antigravity"
  | .cowork => "cowork"
  | .grok => "grok"
  | .grokBot => "grok_bot"
  | .fx => "fx"
  | .hermes => "hermes"
  | .cursorDesktop => "cursor_desktop"
  | .openCode => "open_code"
  | .claudeChat => "claude_chat"
  | .chatGpt => "chat_gpt"
  | .simple => "simple"

theorem HarnessId.snakeCase_injective : Function.Injective HarnessId.snakeCase := by
  intro left right same
  cases left <;> cases right <;> first | rfl | exact absurd same (by decide)

@[reducible] def HarnessNames.snakeCase : HarnessNames where
  asStr := HarnessId.snakeCase
  display := HarnessId.snakeCase
  asStr_injective := HarnessId.snakeCase_injective
  asStr_oneLine := by
    intro harness
    cases harness <;> decide

/-- One message of a transcript. Only the time is read; `content` stands for
everything txcript keeps beside it. -/
structure Message where
  timestamp : DateTime
  content : String
  deriving DecidableEq, Repr

/-- Transcript metadata: the presentation fields and, in `rest`, what only
serialization sees. -/
structure Meta where
  id : String
  timestamp : DateTime
  title : Option String
  cwd : Option String
  gitBranch : Option String
  model : Option String
  rest : String
  deriving DecidableEq, Repr

structure Transcript where
  metadata : Meta
  body : List Message
  deriving DecidableEq, Repr

end AgentTranscript
