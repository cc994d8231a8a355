import AgentTranscript.Merge.Freshness

/-! Views of sessions, and the merge of local with remote ones. -/

set_option autoImplicit false

namespace AgentTranscript

/-- `ambiguous`: local copies of the session disagree on the body at the top rank. -/
structure LocalView where
  harness : HarnessId
  sessionId : String
  repoKey : Option String
  source : String
  fingerprint : String
  freshness : Freshness
  info : Info
  ambiguous : Bool
  deriving DecidableEq, Repr

/-- `ambiguous`: catalog revisions at the current rank disagree. -/
structure RemoteView where
  harness : HarnessId
  sessionId : String
  repoKey : String
  freshness : Freshness
  objectKey : String
  info : Info
  ambiguous : Bool
  deriving DecidableEq, Repr

structure MergedView where
  harness : HarnessId
  sessionId : String
  pick : Pick
  info : Info
  sortAt : DateTime
  objectKey : Option String
  contentHash : String
  localSource : Option String
  localFingerprint : Option String
  deriving DecidableEq, Repr

def sortTime (freshness : Freshness) (startedAt : DateTime) : DateTime :=
  (freshness.updatedAt.or freshness.lastMessageAt).getD startedAt

def ambiguousLocal (view : LocalView) : MergedView where
  harness := view.harness
  sessionId := view.sessionId
  pick := .ambiguous
  info := view.info
  sortAt := sortTime view.freshness view.info.startedAt
  objectKey := none
  contentHash := ""
  localSource := some view.source
  localFingerprint := some view.fingerprint

def fromLocal (view : LocalView) : MergedView where
  harness := view.harness
  sessionId := view.sessionId
  pick := .local
  info := view.info
  sortAt := sortTime view.freshness view.info.startedAt
  objectKey := none
  contentHash := view.freshness.contentHash
  localSource := some view.source
  localFingerprint := some view.fingerprint

def fromRemote (view : RemoteView) : MergedView where
  harness := view.harness
  sessionId := view.sessionId
  pick := if view.ambiguous then .ambiguous else .remote
  info := view.info
  sortAt := sortTime view.freshness view.info.startedAt
  objectKey := if view.ambiguous then none else some view.objectKey
  contentHash := if view.ambiguous then "" else view.freshness.contentHash
  localSource := none
  localFingerprint := none

def fromRemoteWithLocal (remote : RemoteView) (view : LocalView) : MergedView :=
  { fromRemote remote with
    localSource := some view.source
    localFingerprint := some view.fingerprint }

/-- An ambiguous side only loses when the other is strictly newer. -/
def mergePair (view : LocalView) (remote : RemoteView) : MergedView :=
  if remote.ambiguous && rank view.freshness remote.freshness ≠ .left then ambiguousLocal view
  else if view.ambiguous && rank view.freshness remote.freshness ≠ .right then ambiguousLocal view
  else match prefer view.freshness remote.freshness with
    | .local => fromLocal view
    | .remote => fromRemoteWithLocal remote view
    | .ambiguous => ambiguousLocal view

def matchesScope (harness : HarnessId) (sessionRepo : Option String) (repoKey : String)
    (selected : Option HarnessId) : Bool :=
  sessionRepo = some repoKey && selected.all fun only => only = harness

def isTwin (repoKey : String) (view : LocalView) (remote : RemoteView) : Bool :=
  remote.harness = view.harness && remote.sessionId = view.sessionId && remote.repoKey = repoKey

/-- One turn of the loop over local views: which remote views are used, and
what has been merged. -/
def selectStep (repoKey : String) (remotes : List RemoteView)
    (state : List Bool × List MergedView) (view : LocalView) : List Bool × List MergedView :=
  match remotes.zipIdx.find? fun entry => isTwin repoKey view entry.1 with
  | some entry => (state.1.set entry.2 true, state.2 ++ [mergePair view entry.1])
  | none =>
      if view.ambiguous then (state.1, state.2 ++ [ambiguousLocal view])
      else (state.1, state.2 ++ [fromLocal view])

section Select

variable [HarnessNames]

/-- Newest first, then by harness name and session id. -/
def MergedView.sortKey (view : MergedView) : DateTimeᵒᵈ ×ₗ String ×ₗ String :=
  toLex (OrderDual.toDual view.sortAt,
    toLex (HarnessNames.asStr view.harness, view.sessionId))

def select (repoKey : String) (selected : Option HarnessId) (locals : List LocalView)
    (remotes : List RemoteView) : List MergedView :=
  let inScope := locals.filter fun view =>
    matchesScope view.harness view.repoKey repoKey selected
  let paired := inScope.foldl (selectStep repoKey remotes) (remotes.map fun _ => false, [])
  let unpaired := (remotes.zip paired.1).filter fun entry =>
    !entry.2 && matchesScope entry.1.harness (some entry.1.repoKey) repoKey selected
  (paired.2 ++ unpaired.map fun entry => fromRemote entry.1).insertionSort
    fun left right => left.sortKey ≤ right.sortKey

end Select

end AgentTranscript
