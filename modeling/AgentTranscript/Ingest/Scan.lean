import AgentTranscript.Document
import AgentTranscript.Catalog.Update
import AgentTranscript.Local.Record

/-! Diff of the local records against the catalog, and the ingest run around it. -/

set_option autoImplicit false

namespace AgentTranscript

abbrev ArchiveKey := HarnessId × String × String

structure Upload where
  objectKey : String
  blob : Bytes
  deriving DecidableEq, Repr

structure Scan where
  uploads : List Upload
  incoming : Catalog
  known : List ArchiveKey
  unchanged : Nat
  failures : List String
  changedRepos : Finset String
  deriving DecidableEq

def catalogIndex (catalog : Catalog) : List ArchiveKey :=
  catalog.sessions.flatMap fun session => session.revisions.map fun revision =>
    (session.harness, session.sessionId, revision.contentHash)

section Scan

variable [HarnessNames] [DocumentCodec]

def sourceFailure (record : SourceRecord) (reason : String) : String :=
  let harness := HarnessNames.display record.harness
  let source := record.source
  s!"{harness} {source} — {reason}"

def Scan.fail (scan : Scan) (record : SourceRecord) (reason : String) : Scan :=
  { scan with failures := scan.failures ++ [sourceFailure record reason] }

/-- One record that is ready and not yet archived under the hash it records. -/
def scanSource (load : Load) (nonces : Nat → Nonce) (scan : Scan) (record : SourceRecord)
    (repoKey : String) : Except Error Scan :=
  match load record.harness record.source with
  | .ok transcript =>
      let sessionId := transcript.metadata.id
      if sessionId.isEmpty then .ok (scan.fail record "session id is empty")
      else do
        let document := ArchiveDocument.new record.harness repoKey transcript
        let hash ← document.contentHash
        -- The file moved since the diff, to a body the catalog already has.
        if (record.harness, sessionId, hash) ∈ scan.known then
          .ok { scan with unchanged := scan.unchanged + 1 }
        else do
          let key ← objectKey hash
          let blob ← encryptDocument (nonces scan.uploads.length) key document
          let revision ← document.revision hash record.freshness.updatedAt blob.length
          let piece := Catalog.piece repoKey record.harness sessionId revision
          let incoming ← mergeCatalogs scan.incoming piece
          .ok { scan with
            incoming := incoming
            known := (record.harness, sessionId, hash) :: scan.known
            uploads := scan.uploads ++ [{ objectKey := key, blob := blob }]
            changedRepos := insert repoKey scan.changedRepos }
  | .error (.transient message) => .ok (scan.fail record s!"transient: {message}")
  | .error (.broken message) => .ok (scan.fail record message)

def scanRecord (load : Load) (nonces : Nat → Nonce) (scan : Scan) (record : SourceRecord) :
    Except Error Scan :=
  if record.state ≠ .ready then .ok scan
  else match record.repoKey with
    | none => .ok scan
    | some repoKey =>
        if (record.harness, record.sessionId, record.freshness.contentHash) ∈ scan.known then
          .ok { scan with unchanged := scan.unchanged + 1 }
        else scanSource load nonces scan record repoKey

def Scan.start (report : Report) (catalog : Catalog) : Scan where
  uploads := []
  incoming := Catalog.empty
  known := catalogIndex catalog
  unchanged := 0
  failures := report.failures
  changedRepos := report.changedRepos

def scan (load : Load) (nonces : Nat → Nonce) (report : Report) (records : List SourceRecord)
    (catalog : Catalog) : Except Error Scan :=
  records.foldlM (scanRecord load nonces) (.start report catalog)

/-- `commit_catalog` while no other client commits. -/
def commitAlone (catalog incoming : Catalog) : Except Error Catalog :=
  if incoming.sessions.isEmpty then .ok catalog else updateCatalog catalog incoming

/-- An ingest run alone with the store: the scan with its uploads, and the
catalog committed after them. -/
def ingest (load : Load) (nonces : Nat → Nonce) (report : Report) (records : List SourceRecord)
    (catalog : Catalog) : Except Error (Scan × Catalog) := do
  let scan ← scan load nonces report records catalog
  let committed ← commitAlone catalog scan.incoming
  .ok (scan, committed)

end Scan

end AgentTranscript
