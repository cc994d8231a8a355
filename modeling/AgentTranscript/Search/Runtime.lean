import AgentTranscript.Search.Snapshot

/-! The in-memory search runtime of a repository, and how a request syncs it. -/

set_option autoImplicit false

namespace AgentTranscript

structure DocEntry (Extracted : Type) [Txcript Extracted] where
  fingerprint : String
  extracted : Txcript.Value Extracted

/-- `documents` mirrors `index` in the form that is saved. -/
structure Runtime (Extracted : Type) [Txcript Extracted] where
  index : Txcript.Index Extracted
  repoKey : String
  documents : HashMap DocKey (DocEntry Extracted)
  dirty : Bool

section Runtime

variable {Extracted : Type} [Txcript Extracted]

def valueOf (extracted : Extracted) : Txcript.Value Extracted :=
  match Txcript.toValue extracted with
  | .ok value => value
  | .error _ => Txcript.null

def DocEntry.of (fingerprint : String) (extracted : Extracted) : DocEntry Extracted where
  fingerprint := fingerprint
  extracted := valueOf extracted

def Snapshot.intoRuntime (snapshot : Snapshot Extracted) : Runtime Extracted where
  index := snapshot.documents.foldl
    (fun index document => Txcript.insertExtracted index document.extracted) Txcript.newIndex
  repoKey := snapshot.repoKey
  documents := HashMap.collect (snapshot.documents.map fun document =>
    (document.key, .of document.fingerprint document.extracted))
  dirty := false

def Runtime.empty (repoKey : String) : Runtime Extracted where
  index := Txcript.newIndex
  repoKey := repoKey
  documents := ∅
  dirty := false

def Runtime.fingerprint (runtime : Runtime Extracted) (key : DocKey) : Option String :=
  (runtime.documents.lookup key).map (·.fingerprint)

def Runtime.upsert (runtime : Runtime Extracted) (key : DocKey) (fingerprint : String)
    (extracted : Extracted) : Runtime Extracted where
  index := Txcript.insertExtracted runtime.index extracted
  repoKey := runtime.repoKey
  documents := runtime.documents.insert key (.of fingerprint extracted)
  dirty := true

def Runtime.remove (runtime : Runtime Extracted) (key : DocKey) : Runtime Extracted where
  index := Txcript.removeKey runtime.index key
  repoKey := runtime.repoKey
  documents := runtime.documents.erase key
  dirty := runtime.dirty || (runtime.documents.lookup key).isSome

def savedDocument (key : DocKey) (entry : DocEntry Extracted) :
    Except Error (Document Extracted) := do
  let extracted ← Txcript.fromValue entry.extracted
  .ok ⟨key, entry.fingerprint, extracted⟩

end Runtime

section Sync

variable {Extracted Stored : Type} [HarnessNames] [DocumentCodec] [DocumentReader]
  [Txcript Extracted] [SnapshotCodec Extracted Stored]

omit [DocumentReader] in
def Runtime.toSnapshot (runtime : Runtime Extracted) : Except Error (Snapshot Extracted) := do
  let documents ← runtime.documents.entries.mapM fun entry => savedDocument entry.1 entry.2
  sealSnapshot runtime.repoKey documents

omit [DocumentReader] in
/-- Whether a snapshot was written, with the runtime and the file afterwards. -/
def Runtime.persist (runtime : Runtime Extracted) (diskError : Option Error)
    (file : Option Stored) : Except Error Bool × Runtime Extracted × Option Stored :=
  if !runtime.dirty then (.ok false, runtime, file)
  else
    match runtime.toSnapshot with
    | .error error => (.error error, runtime, file)
    | .ok snapshot =>
        match saveLocal diskError snapshot file with
        | (.error error, left) => (.error error, runtime, left)
        | (.ok _, saved) => (.ok true, { runtime with dirty := false }, saved)

/-- The documents a request wants, each with its fingerprint and its view. -/
def wantedOf (merged : List MergedView) : HashMap DocKey (String × MergedView) :=
  HashMap.collect ((merged.filter fun view => view.pick ≠ .ambiguous).map fun view =>
    (view.docKey, (fingerprintOf view, view)))

structure Change where
  key : DocKey
  fingerprint : String
  view : MergedView

omit [HarnessNames] [DocumentCodec] [DocumentReader] in
def Runtime.removes (runtime : Runtime Extracted) (wanted : HashMap DocKey (String × MergedView)) :
    List DocKey :=
  runtime.documents.keys.filter fun key => (wanted.lookup key).isNone

omit [HarnessNames] [DocumentCodec] [DocumentReader] in
def Runtime.changes (runtime : Runtime Extracted) (wanted : HashMap DocKey (String × MergedView)) :
    List Change :=
  (wanted.entries.filter fun entry => runtime.fingerprint entry.1 ≠ some entry.2.1).map
    fun entry => ⟨entry.1, entry.2.1, entry.2.2⟩

omit [DocumentCodec] in
/-- Changes that fail to load are dropped, which keeps their previous document. -/
def loadChanges (bodies : Bodies) (changes : List Change) : List (Document Extracted) :=
  changes.filterMap fun change =>
    match transcript bodies change.view with
    | .ok body => some ⟨change.key, change.fingerprint, Txcript.extract change.key body⟩
    | .error _ => none

omit [HarnessNames] [DocumentCodec] [DocumentReader] in
def Runtime.apply (runtime : Runtime Extracted) (removes : List DocKey)
    (documents : List (Document Extracted)) : Runtime Extracted :=
  documents.foldl (fun runtime document =>
    runtime.upsert document.key document.fingerprint document.extracted)
    (removes.foldl Runtime.remove runtime)

omit [DocumentReader] in
/-- The section under the write lock: the runtime and the file afterwards, and
the bytes to publish if a snapshot was written and this install may write. -/
def Runtime.commit (runtime : Runtime Extracted) (removes : List DocKey)
    (documents : List (Document Extracted)) (canWrite : Bool) (diskError : Option Error)
    (file : Option Stored) : Runtime Extracted × Option Stored × Option Stored :=
  match (runtime.apply removes documents).persist diskError file with
  | (.error _, left, saved) => (left, saved, none)
  | (.ok wrote, left, saved) =>
      let published :=
        if wrote && canWrite then
          match left.toSnapshot >>= SnapshotCodec.toBytes with
          | .ok plain => some plain
          | .error _ => none
        else none
      (left, saved, published)

/-- One request's sync with nothing in between its sections. -/
def syncRuntime (runtime : Runtime Extracted) (merged : List MergedView) (bodies : Bodies)
    (canWrite : Bool) (diskError : Option Error) (file : Option Stored) :
    Runtime Extracted × Option Stored × Option Stored :=
  let wanted := wantedOf merged
  runtime.commit (runtime.removes wanted) (loadChanges bodies (runtime.changes wanted))
    canWrite diskError file

omit [HarnessNames] [DocumentCodec] [DocumentReader] in
/-- The runtime a server starts with: the local snapshot, the published one, or
an empty runtime that the first sync fills. -/
def runtimeFor (repoKey : String) (fetched : Except Error (Option Stored))
    (diskError : Option Error) (file : Option Stored) :
    Except Error (Runtime Extracted) × Option Stored :=
  match loadLocal repoKey file with
  | .error error => (.error error, file)
  | .ok (some snapshot) => (.ok (Snapshot.intoRuntime snapshot), file)
  | .ok none =>
      match loadRemote repoKey fetched diskError file with
      | (.ok (some snapshot), saved) => (.ok (Snapshot.intoRuntime snapshot), saved)
      | (_, left) => (.ok (.empty repoKey), left)

end Sync

end AgentTranscript
