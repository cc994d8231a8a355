import AgentTranscript.Library.HashMap
import AgentTranscript.Views.Body

/-!
Search snapshots of one repository: their format, the local file that caches
them, and the rebuild from merged views.
-/

set_option autoImplicit false

namespace AgentTranscript

structure DocKey where
  harness : HarnessId
  id : String
  source : Option String
  deriving DecidableEq, Repr

def MergedView.docKey (view : MergedView) : DocKey where
  harness := view.harness
  id := view.sessionId
  source := none

/-- What txcript and `serde_json` do with the searchable form of a transcript. -/
class Txcript (Extracted : Type) where
  Value : Type
  Index : Type
  extract : DocKey → Transcript → Extracted
  key : Extracted → DocKey
  toValue : Extracted → Except Error Value
  null : Value
  fromValue : Value → Except Error Extracted
  newIndex : Index
  insertExtracted : Index → Extracted → Index
  removeKey : Index → DocKey → Index
  key_extract : ∀ docKey transcript, key (extract docKey transcript) = docKey
  fromValue_toValue : ∀ extracted, ∃ value, toValue extracted = .ok value ∧
    fromValue value = .ok extracted

structure Document (Extracted : Type) where
  key : DocKey
  fingerprint : String
  extracted : Extracted
  deriving DecidableEq, Repr

structure Snapshot (Extracted : Type) where
  schema : Nat
  format : String
  repoKey : String
  generation : String
  documents : List (Document Extracted)
  deriving DecidableEq, Repr

def searchFormat : String := "agent-transcript-search-v1-txcript-0.14.4"

def searchSchema : Nat := 1

/-- Snapshots and their documents as `serde_json` writes them. Writing cannot
fail on these types, and what was written is read back. -/
class SnapshotCodec (Extracted : Type) (Stored : outParam Type) where
  documentBytes : Document Extracted → Except Error Bytes
  toBytes : Snapshot Extracted → Except Error Stored
  fromSlice : Stored → Except Error (Snapshot Extracted)
  documentBytes_total : ∀ document, ∃ bytes, documentBytes document = .ok bytes
  fromSlice_toBytes : ∀ snapshot, ∃ stored, toBytes snapshot = .ok stored ∧
    fromSlice stored = .ok snapshot

/-- `u64::to_le_bytes`. -/
def leBytes (length : Nat) : Bytes :=
  (List.range 8).map fun place => UInt8.ofNat (length / 256 ^ place)

section Order

variable [HarnessNames]

def DocKey.sortKey (key : DocKey) : String ×ₗ String ×ₗ WithBot String :=
  toLex (HarnessNames.asStr key.harness, toLex (key.id, key.source))

def sortDocuments {Extracted : Type} (documents : List (Document Extracted)) :
    List (Document Extracted) :=
  documents.insertionSort fun left right => left.key.sortKey ≤ right.key.sortKey

end Order

section Format

variable {Extracted : Type} [Txcript Extracted]

def Snapshot.validate (snapshot : Snapshot Extracted) (expectedRepo : Option String) :
    Except Error Unit :=
  if snapshot.schema ≠ searchSchema then .error (.schema snapshot.schema)
  else if snapshot.format ≠ searchFormat then
    .error (.msg s!"unsupported search index format `{snapshot.format}`")
  else
    match expectedRepo.filter fun expected => snapshot.repoKey ≠ expected with
    | some expected =>
        .error (.msg s!"search index belongs to `{snapshot.repoKey}`, expected `{expected}`")
    | none =>
        if snapshot.documents.any fun document => Txcript.key document.extracted ≠ document.key then
          .error (.msg "search index document key is inconsistent")
        else .ok ()

variable {Stored : Type} [SnapshotCodec Extracted Stored]

def readSnapshot (repoKey : String) (stored : Stored) : Except Error (Snapshot Extracted) := do
  let snapshot ← SnapshotCodec.fromSlice stored
  snapshot.validate (some repoKey)
  .ok snapshot

/-- A missing file is not an error. -/
def loadLocal (repoKey : String) (file : Option Stored) :
    Except Error (Option (Snapshot Extracted)) :=
  match file with
  | none => .ok none
  | some stored => do
      let snapshot ← readSnapshot repoKey stored
      .ok (some snapshot)

/-- `atomic_write` replaces the file or, when the disk fails, leaves it. -/
def saveLocal (diskError : Option Error) (snapshot : Snapshot Extracted) (file : Option Stored) :
    Except Error Unit × Option Stored :=
  match snapshot.validate (some snapshot.repoKey) with
  | .error error => (.error error, file)
  | .ok _ =>
      match SnapshotCodec.toBytes snapshot with
      | .error error => (.error error, file)
      | .ok stored =>
          match diskError with
          | some error => (.error error, file)
          | none => (.ok (), some stored)

end Format

section Rebuild

variable {Extracted Stored : Type} [HarnessNames] [DocumentCodec] [DocumentReader]
  [Txcript Extracted] [SnapshotCodec Extracted Stored]

omit [HarnessNames] [DocumentReader] [Txcript Extracted] in
def generation (documents : List (Document Extracted)) : Except Error String := do
  let encoded ← documents.mapM SnapshotCodec.documentBytes
  .ok (DocumentCodec.sha256Hex (encoded.flatMap fun bytes => leBytes bytes.length ++ bytes))

omit [HarnessNames] [DocumentCodec] [DocumentReader] in
def priorDocuments (repoKey : String) (file : Option Stored) :
    Except Error (HashMap (DocKey × String) Extracted) := do
  let snapshot ← loadLocal repoKey file
  .ok (match snapshot with
    | none => ∅
    | some snapshot => HashMap.collect (snapshot.documents.map fun document =>
        ((document.key, document.fingerprint), document.extracted)))

omit [DocumentCodec] in
/-- One turn of the loop over the merged views: what is left of the previous
documents, and the documents of the new snapshot. -/
def rebuildStep (bodies : Bodies)
    (state : HashMap (DocKey × String) Extracted × List (Document Extracted))
    (view : MergedView) :
    Except Error (HashMap (DocKey × String) Extracted × List (Document Extracted)) :=
  if view.pick = .ambiguous then .ok state
  else
    let docKey := view.docKey
    let fingerprint := fingerprintOf view
    let (reused, prior) :=
      if fingerprint.isEmpty then (none, state.1)
      else state.1.extract (docKey, fingerprint)
    match reused with
    | some extracted => .ok (prior, state.2 ++ [⟨docKey, fingerprint, extracted⟩])
    | none => do
        let body ← transcript bodies view
        .ok (prior, state.2 ++ [⟨docKey, fingerprint, Txcript.extract docKey body⟩])

def sealSnapshot (repoKey : String) (documents : List (Document Extracted)) :
    Except Error (Snapshot Extracted) := do
  let sorted := sortDocuments documents
  let generation ← generation sorted
  .ok {
    schema := searchSchema
    format := searchFormat
    repoKey := repoKey
    generation := generation
    documents := sorted }

def buildSnapshot (repoKey : String) (merged : List MergedView) (bodies : Bodies)
    (file : Option Stored) : Except Error (Snapshot Extracted) := do
  let prior ← priorDocuments repoKey file
  let rebuilt ← merged.foldlM (rebuildStep bodies) (prior, [])
  sealSnapshot repoKey rebuilt.2

/-- The snapshot of the merged views, and the local file afterwards. -/
def fromMerged (repoKey : String) (merged : List MergedView) (bodies : Bodies)
    (diskError : Option Error) (file : Option Stored) :
    Except Error (Snapshot Extracted) × Option Stored :=
  match buildSnapshot repoKey merged bodies file with
  | .error error => (.error error, file)
  | .ok snapshot =>
      match saveLocal diskError snapshot file with
      | (.error error, left) => (.error error, left)
      | (.ok _, left) => (.ok snapshot, left)

/-- The snapshot built for a repository, with the local file afterwards and the
bytes that are published. -/
def buildForRepo (repoKey : String) (records : List SourceRecord) (catalog : Catalog)
    (bodies : Bodies) (publish : Bool) (diskError : Option Error) (file : Option Stored) :
    Except Error (Snapshot Extracted) × Option Stored × Option Stored :=
  match merged repoKey none (localViews records) catalog with
  | .error error => (.error error, file, none)
  | .ok views =>
      match fromMerged repoKey views bodies diskError file with
      | (.error error, left) => (.error error, left, none)
      | (.ok snapshot, saved) =>
          if publish then
            match snapshot.validate (some snapshot.repoKey), SnapshotCodec.toBytes snapshot with
            | .ok _, .ok plain => (.ok snapshot, saved, some plain)
            | .error error, _ => (.error error, saved, none)
            | .ok _, .error error => (.error error, saved, none)
          else (.ok snapshot, saved, none)

omit [HarnessNames] [DocumentCodec] [DocumentReader] in
/-- `fetched` is what the GET and the decryption gave. -/
def loadRemote (repoKey : String) (fetched : Except Error (Option Stored))
    (diskError : Option Error) (file : Option Stored) :
    Except Error (Option (Snapshot Extracted)) × Option Stored :=
  match fetched with
  | .error error => (.error error, file)
  | .ok none => (.ok none, file)
  | .ok (some plain) =>
      match readSnapshot repoKey plain with
      | .error error => (.error error, file)
      | .ok snapshot =>
          match saveLocal diskError snapshot file with
          | (.error error, left) => (.error error, left)
          | (.ok _, saved) => (.ok (some snapshot), saved)

end Rebuild

section Plain

/-- Transcripts indexed as they are. -/
@[reducible] def Txcript.plain : Txcript (DocKey × Transcript) where
  Value := Option (DocKey × Transcript)
  Index := List (DocKey × Transcript)
  extract key transcript := (key, transcript)
  key extracted := extracted.1
  toValue extracted := .ok (some extracted)
  null := none
  fromValue
    | some extracted => .ok extracted
    | none => .error (.json "invalid type: null")
  newIndex := []
  insertExtracted index extracted :=
    extracted :: index.filter fun other => other.1 ≠ extracted.1
  removeKey index key := index.filter fun other => other.1 ≠ key
  key_extract _ _ := rfl
  fromValue_toValue extracted := ⟨some extracted, rfl, rfl⟩

/-- Files that hold a snapshot as it is, or bytes that are none. -/
@[reducible] def SnapshotCodec.plain :
    SnapshotCodec (DocKey × Transcript) (Snapshot (DocKey × Transcript) ⊕ Bytes) where
  documentBytes document := .ok ((document.key.id ++ document.fingerprint).toList.map fun char =>
    UInt8.ofNat char.toNat)
  toBytes snapshot := .ok (.inl snapshot)
  fromSlice
    | .inl snapshot => .ok snapshot
    | .inr _ => .error (.json "expected value at line 1 column 1")
  documentBytes_total _ := ⟨_, rfl⟩
  fromSlice_toBytes snapshot := ⟨.inl snapshot, rfl, rfl⟩

/-- A reader that takes the bytes of a document for its id. -/
@[reducible] def DocumentReader.plain : DocumentReader where
  fromSlice bytes := .ok {
    schema := documentSchema
    harness := .codex
    repoKey := "repo"
    metadata :=
      ⟨String.ofList (bytes.map fun byte => Char.ofNat byte.toNat), 0, none, none, none, none, ""⟩
    messages := [] }

end Plain

end AgentTranscript
