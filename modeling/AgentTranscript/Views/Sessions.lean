import AgentTranscript.Catalog.Basic
import AgentTranscript.Local.Record
import AgentTranscript.Views.Select

/-! Session listings: local records and catalog revisions as merged views. -/

set_option autoImplicit false

namespace AgentTranscript

def viewOf (record : SourceRecord) : LocalView where
  harness := record.harness
  sessionId := record.sessionId
  repoKey := record.repoKey
  source := record.source
  fingerprint := record.fingerprint
  freshness := record.freshness
  info := record.info
  ambiguous := false

def chooseLocalStep (best other : LocalView) : LocalView :=
  match prefer best.freshness other.freshness with
  | .local => best
  | .remote => other
  | .ambiguous => { best with ambiguous := true }

/-- The freshest copy of a session. Groups are never empty. -/
def chooseLocal : List LocalView → Option LocalView
  | [] => none
  | best :: others => some (others.foldl chooseLocalStep best)

def localViews (records : List SourceRecord) : List LocalView :=
  (grouped records).filterMap fun entry => chooseLocal (entry.2.map viewOf)

section Remote

variable [HarnessNames]

def remoteView (session : SessionRecord) : Except Error RemoteView :=
  if session.revisions.isEmpty then .error (noRevisions session)
  else do
    let current ← chooseCurrent (session.revisions.map (·.freshness))
    let ambiguous := match current with
      | .index _ => false
      | .ambiguous _ => true
    -- The position is always in range; indexing panics otherwise.
    match session.revisions[current.position]? with
    | none => .error (.msg "index out of bounds")
    | some revision => .ok {
        harness := session.harness
        sessionId := session.sessionId
        repoKey := session.repoKey
        freshness := revision.freshness
        objectKey := revision.objectKey
        info := revision.info
        ambiguous := ambiguous }

def remoteViews (catalog : Catalog) : Except Error (List RemoteView) :=
  catalog.sessions.mapM remoteView

def merged (repoKey : String) (selected : Option HarnessId) (locals : List LocalView)
    (catalog : Catalog) : Except Error (List MergedView) := do
  let remotes ← remoteViews catalog
  .ok (select repoKey selected locals remotes)

end Remote

end AgentTranscript
