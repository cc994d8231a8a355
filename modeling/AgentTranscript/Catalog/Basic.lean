import AgentTranscript.Merge.Freshness
import AgentTranscript.Text

/-! The session catalog: merging, pruning to current revisions, validation. -/

set_option autoImplicit false

namespace AgentTranscript

def catalogKey : String := "v1/catalog"

def objectsPrefix : String := "v1/objects/"

def catalogSchema : Nat := 1

structure Revision where
  objectKey : String
  freshness : Freshness
  info : Info
  size : Nat
  deriving DecidableEq, Repr

abbrev Revision.contentHash (revision : Revision) : String :=
  revision.freshness.contentHash

abbrev SessionKey := HarnessId × String

structure SessionRecord where
  repoKey : String
  harness : HarnessId
  sessionId : String
  revisions : List Revision
  deriving DecidableEq, Repr

def SessionRecord.key (session : SessionRecord) : SessionKey :=
  (session.harness, session.sessionId)

structure Catalog where
  schema : Nat
  sessions : List SessionRecord
  deriving DecidableEq, Repr

def Catalog.empty : Catalog where
  schema := catalogSchema
  sessions := []

def Revision.bare (contentHash : String) (updatedAt : DateTime) : Revision where
  objectKey := objectsPrefix ++ "sha256/" ++ String.ofList (contentHash.toList.take 2) ++ "/" ++
    String.ofList (contentHash.toList.drop 2)
  freshness := ⟨some updatedAt, none, 0, contentHash⟩
  info := ⟨0, none, none, none, none⟩
  size := 0

def Catalog.piece (repoKey : String) (harness : HarnessId) (sessionId : String)
    (revision : Revision) : Catalog where
  schema := catalogSchema
  sessions := [{ repoKey, harness, sessionId, revisions := [revision] }]

def addRevision (revisions : List Revision) (revision : Revision) : List Revision :=
  if revisions.any fun current => current.contentHash = revision.contentHash then revisions
  else revisions ++ [revision]

def addRevisions (existing incoming : List Revision) : List Revision :=
  incoming.foldl addRevision existing

section Merge

variable [HarnessNames]

def mergeSession : List SessionRecord → SessionRecord → Except Error (List SessionRecord)
  | [], incoming => .ok [incoming]
  | existing :: rest, incoming =>
      if existing.key = incoming.key then
        if existing.repoKey ≠ incoming.repoKey then
          let harness := HarnessNames.display incoming.harness
          let sessionId := incoming.sessionId
          let ours := existing.repoKey
          let theirs := incoming.repoKey
          .error (.msg s!"session {harness} {sessionId} belongs to both `{ours}` and `{theirs}`")
        else
          .ok ({ existing with
            revisions := addRevisions existing.revisions incoming.revisions } :: rest)
      else do
        let merged ← mergeSession rest incoming
        .ok (existing :: merged)

def SessionRecord.sortKey (session : SessionRecord) : String ×ₗ String :=
  toLex (HarnessNames.asStr session.harness, session.sessionId)

def noRevisions (session : SessionRecord) : Error :=
  let harness := HarnessNames.display session.harness
  let sessionId := session.sessionId
  .msg s!"session {harness} {sessionId} has no revisions"

def SessionRecord.sorted (session : SessionRecord) : SessionRecord :=
  { session with
    revisions := session.revisions.insertionSort fun left right =>
      left.contentHash ≤ right.contentHash }

def finishSession (session : SessionRecord) : Except Error SessionRecord :=
  if session.sorted.revisions.isEmpty then .error (noRevisions session)
  else .ok session.sorted

def mergeCatalogs (base incoming : Catalog) : Except Error Catalog :=
  if base.schema ≠ catalogSchema then .error (.schema base.schema)
  else if incoming.schema ≠ catalogSchema then .error (.schema incoming.schema)
  else do
    let sessions ← incoming.sessions.foldlM mergeSession base.sessions
    let sorted := sessions.insertionSort fun left right => left.sortKey ≤ right.sortKey
    let finished ← sorted.mapM finishSession
    .ok { schema := catalogSchema, sessions := finished }

end Merge

def objectKey (contentHash : String) : Except Error String :=
  if contentHash.utf8ByteSize < 3 || !contentHash.toList.all isAsciiHexdigit then
    .error (.msg s!"content hash `{contentHash}` is not hex")
  else
    let shard := String.ofList (contentHash.toList.take 2)
    let name := String.ofList (contentHash.toList.drop 2)
    .ok s!"{objectsPrefix}sha256/{shard}/{name}"

def Current.position : Current → Nat
  | .index place => place
  | .ambiguous place => place

/-- `HashMap::insert`. The order of entries is never observed. -/
def hashInsert (byHash : List (String × Nat)) (contentHash : String) (index : Nat) :
    List (String × Nat) :=
  (contentHash, index) :: byHash.filter fun entry => entry.1 ≠ contentHash

def pruneStep (best : Nat) (bestFreshness : Freshness) (byHash : List (String × Nat))
    (entry : Revision × Nat) : List (String × Nat) :=
  if prefer entry.1.freshness bestFreshness = .remote then byHash
  else match byHash.lookup entry.1.contentHash with
    | none => hashInsert byHash entry.1.contentHash entry.2
    | some _ =>
        if entry.2 = best then hashInsert byHash entry.1.contentHash entry.2 else byHash

def pruneRevisions (revisions : List Revision) : List Revision :=
  if revisions.length ≤ 1 then revisions
  else
    let ranked := revisions.map (·.freshness)
    match chooseCurrent ranked with
    | .error _ => revisions
    | .ok current =>
        match ranked[current.position]? with
        | none => revisions
        | some bestFreshness =>
            let byHash := revisions.zipIdx.foldl (pruneStep current.position bestFreshness) []
            let keep := (byHash.map (·.2)).insertionSort (· ≤ ·)
            keep.filterMap fun index => revisions[index]?

/-- Drop revisions strictly superseded by the current one. -/
def pruneToCurrent (catalog : Catalog) : Catalog :=
  { catalog with
    sessions := catalog.sessions.map fun session =>
      { session with revisions := pruneRevisions session.revisions } }

def validateRevision (revision : Revision) : Except Error Unit := do
  let expected ← objectKey revision.contentHash
  if revision.objectKey ≠ expected then
    let contentHash := revision.contentHash
    let actual := revision.objectKey
    .error (.msg s!"revision {contentHash} is stored at `{actual}` instead of `{expected}`")

def validate [HarnessNames] (catalog : Catalog) : Except Error Unit :=
  if catalog.schema ≠ catalogSchema then .error (.schema catalog.schema)
  else catalog.sessions.forM fun session =>
    if session.revisions.isEmpty then .error (noRevisions session)
    else session.revisions.forM validateRevision

end AgentTranscript
