import AgentTranscript.Ingest.Pieces
import AgentTranscript.Ingest.ScanProperties
import AgentTranscript.Remote.Plaintext
import AgentTranscript.Views.Body
import AgentTranscript.Views.Selection

/-!
From a body on one machine through the archive to a reader on another: what a
reader gets for a session is what a scan read for that session.
-/

set_option autoImplicit false

namespace AgentTranscript

open Loop VersionedCell

/-- The revision is that of the document. -/
structure Describes [DocumentCodec] (document : ArchiveDocument) (session : SessionRecord)
    (revision : Revision) : Prop where
  schema : document.schema = documentSchema
  key : (document.harness, document.metadata.id) = session.key
  repoKey : document.repoKey = session.repoKey
  contentHash : document.contentHash = .ok revision.contentHash

def Documented [DocumentCodec] (documents : Set ArchiveDocument) (catalog : Catalog) : Prop :=
  ∀ session ∈ catalog.sessions, ∀ revision ∈ session.revisions,
    ∃ document ∈ documents, Describes document session revision

section Catalogs

variable [HarnessNames] [DocumentCodec] {documents : Set ArchiveDocument}
  {base incoming merged updated : Catalog}

omit [HarnessNames] in
theorem documented_empty (documents : Set ArchiveDocument) : Documented documents Catalog.empty := by
  intro session member
  cases member

omit [HarnessNames] in
theorem Documented.move {source session : SessionRecord} {revision : Revision}
    (documented : Documented documents base) (member : source ∈ base.sessions)
    (found : revision ∈ source.revisions) (sameKey : source.key = session.key)
    (sameRepo : source.repoKey = session.repoKey) :
    ∃ document ∈ documents, Describes document session revision := by
  obtain ⟨document, among, describes⟩ := documented source member revision found
  exact ⟨document, among, describes.schema, describes.key.trans sameKey,
    describes.repoKey.trans sameRepo, describes.contentHash⟩

theorem Documented.merge (stored : Documented documents base)
    (submitted : Documented documents incoming)
    (accepted : mergeCatalogs base incoming = .ok merged) : Documented documents merged := by
  intro session member revision found
  obtain ⟨source, side, sameKey, sameRepo, included⟩ :=
    (mergeCatalogs_origin accepted member).2 revision found
  rcases side with present | present
  · exact stored.move present included sameKey sameRepo
  · exact submitted.move present included sameKey sameRepo

theorem Documented.update (stored : Documented documents base)
    (submitted : Documented documents incoming)
    (accepted : updateCatalog base incoming = .ok updated) : Documented documents updated := by
  intro session member revision found
  obtain ⟨source, side, sameKey, sameRepo, included⟩ := updateCatalog_origin accepted member found
  rcases side with present | present
  · exact stored.move present included sameKey sameRepo
  · exact submitted.move present included sameKey sameRepo

theorem Documented.serial {submissions stored : List Catalog} (start : Documented documents base)
    (submitted : ∀ catalog ∈ submissions, Documented documents catalog)
    (applied : serialCatalogs base submissions = .ok stored) :
    ∀ catalog ∈ stored, Documented documents catalog := by
  induction submissions generalizing base stored with
  | nil =>
      cases applied
      simp
  | cons head tail ih =>
      obtain ⟨first, accepted, rest⟩ := bind_ok applied
      obtain ⟨later, recursive, shape⟩ := bind_ok rest
      cases shape
      have next := start.update (submitted head List.mem_cons_self) accepted
      intro catalog member
      rcases List.mem_cons.mp member with same | onward
      · exact same ▸ next
      · exact ih next (fun other among => submitted other (List.mem_cons_of_mem head among))
          recursive catalog onward

end Catalogs

/-- One run of `scan` with all that it reads. -/
structure IngestRequest where
  load : Load
  nonces : Nat → Nonce
  report : Report
  records : List SourceRecord
  catalog : Catalog

def IngestRequest.scan [HarnessNames] [DocumentCodec] (request : IngestRequest) :
    Except Error Scan :=
  AgentTranscript.scan request.load request.nonces request.report request.records request.catalog

/-- The documents of the bodies that a scan loads. -/
def IngestRequest.documents (request : IngestRequest) : Set ArchiveDocument :=
  {document | ∃ record ∈ request.records, ∃ repoKey transcript,
    record.repoKey = some repoKey ∧
    request.load record.harness record.source = .ok transcript ∧
    document = .new record.harness repoKey transcript}

section Scans

variable [HarnessNames] [DocumentCodec] {request : IngestRequest}

/-- What one turn of a scan adds: nothing, or the piece of a document that it loaded. -/
theorem scanRecord_incoming {load : Load} {nonces : Nat → Nonce} {scan next : Scan}
    {record : SourceRecord} (accepted : scanRecord load nonces scan record = .ok next) :
    next.incoming = scan.incoming ∨
      ∃ repoKey transcript hash size revision, record.repoKey = some repoKey ∧
        load record.harness record.source = .ok transcript ∧
        (ArchiveDocument.new record.harness repoKey transcript).contentHash = .ok hash ∧
        (ArchiveDocument.new record.harness repoKey transcript).revision hash
          record.freshness.updatedAt size = .ok revision ∧
        mergeCatalogs scan.incoming
          ((ArchiveDocument.new record.harness repoKey transcript).piece revision) =
            .ok next.incoming := by
  unfold scanRecord at accepted
  split at accepted
  · cases accepted
    exact .inl rfl
  · split at accepted
    · cases accepted
      exact .inl rfl
    · rename_i repoKey ours
      split at accepted
      · cases accepted
        exact .inl rfl
      · unfold scanSource at accepted
        cases loaded : load record.harness record.source with
        | error failure =>
            rw [loaded] at accepted
            cases failure <;> (cases accepted; exact .inl rfl)
        | ok transcript =>
            rw [loaded] at accepted
            dsimp only at accepted
            split at accepted
            · cases accepted
              exact .inl rfl
            · obtain ⟨hash, hashed, accepted⟩ := bind_ok accepted
              split at accepted
              · cases accepted
                exact .inl rfl
              · obtain ⟨key, _, accepted⟩ := bind_ok accepted
                obtain ⟨blob, _, accepted⟩ := bind_ok accepted
                obtain ⟨revision, made, accepted⟩ := bind_ok accepted
                obtain ⟨incoming, merged, accepted⟩ := bind_ok accepted
                cases accepted
                exact .inr ⟨repoKey, transcript, hash, blob.length, revision, ours, rfl, hashed,
                  made, merged⟩

theorem scan_scanned {result : Scan} (scanned : request.scan = .ok result) :
    Scanned result.incoming := by
  refine foldlM_ok_invariant scanned (fun _ current => Scanned current.incoming) .empty ?_
  intro _ record current next _ holds accepted
  rcases scanRecord_incoming accepted with same | added
  · exact same ▸ holds
  · obtain ⟨repoKey, transcript, hash, size, revision, -, -, -, made, merged⟩ := added
    exact .merge holds made merged

/-- Whatever a scan submits is the revision of a body that it loaded. -/
theorem scan_documented {result : Scan} (scanned : request.scan = .ok result) :
    Documented request.documents result.incoming := by
  refine foldlM_ok_invariant scanned
    (fun _ current => Documented request.documents current.incoming) (documented_empty _) ?_
  intro _ record current next member documented accepted
  rcases scanRecord_incoming accepted with same | added
  · exact same ▸ documented
  · obtain ⟨repoKey, transcript, hash, size, revision, ours, loaded, hashed, made, merged⟩ := added
    obtain ⟨-, freshness, -, -⟩ := ArchiveDocument.revision_ok_iff.mp made
    refine documented.merge ?_ merged
    intro session present found included
    obtain rfl := List.mem_singleton.mp present
    obtain rfl := List.mem_singleton.mp included
    refine ⟨.new record.harness repoKey transcript,
      ⟨record, member, repoKey, transcript, ours, loaded, rfl⟩, rfl, rfl, rfl, ?_⟩
    rw [hashed, Revision.contentHash, freshness]
    rfl

end Scans

section Views

variable [HarnessNames] {catalog : Catalog} {repoKey : String} {selected : Option HarnessId}
  {locals : List LocalView} {views : List MergedView} {view : MergedView}

theorem remoteView_revision {session : SessionRecord} {remote : RemoteView}
    (made : remoteView session = .ok remote) : ∃ revision ∈ session.revisions,
      remote.objectKey = revision.objectKey ∧ remote.freshness = revision.freshness := by
  unfold remoteView at made
  split at made
  · cases made
  · obtain ⟨current, _, made⟩ := bind_ok made
    dsimp only at made
    split at made
    · cases made
    · rename_i revision found
      cases made
      exact ⟨revision, List.mem_of_getElem? found, rfl, rfl⟩

/-- A remote pick is a revision of its session in the catalog. -/
theorem merged_remote (unique : (catalog.sessions.map (·.key)).Nodup)
    (listed : merged repoKey selected locals catalog = .ok views) (member : view ∈ views)
    (picked : view.pick = .remote) : ∃ session ∈ catalog.sessions, session.key = view.key ∧
      session.repoKey = repoKey ∧ ∃ revision ∈ session.revisions,
        view.objectKey = some revision.objectKey ∧ view.contentHash = revision.contentHash := by
  obtain ⟨remotes, made, shape⟩ := bind_ok listed
  cases shape
  have keys : ((remotesInScope repoKey selected remotes).map RemoteView.key).Nodup :=
    remotesInScope_nodup (remoteViews_reflects unique made).unique
  have wellFormed := rows_wellFormed keys ((select_perm_rows keys).mem_iff.mp member)
  simp only [MergedView.WellFormed, picked] at wellFormed
  obtain ⟨remote, among, sameKey, sameRepo, object, hash, -⟩ := wellFormed
  obtain ⟨session, present, ok⟩ := (mem_of_mapM_ok made).mp among
  obtain ⟨ofKey, ofRepo, -⟩ := remoteView_side ok
  obtain ⟨revision, found, sameObject, sameFreshness⟩ := remoteView_revision ok
  refine ⟨session, present, ofKey.symm.trans sameKey, ofRepo.symm.trans sameRepo, revision, found,
    object.trans (congrArg some sameObject), hash.trans ?_⟩
  rw [sameFreshness]

end Views

section Reading

variable [HarnessNames] [DocumentCodec] [DocumentReader] [CipherSuite] {document : ArchiveDocument}
  {bytes : Bytes}

/-- `serde_json` reads back what it wrote. -/
def Parses (documents : Set ArchiveDocument) : Prop :=
  ∀ document ∈ documents, ∀ bytes, DocumentCodec.canonicalBytes document = .ok bytes →
    DocumentReader.fromSlice bytes = .ok document

/-- The bytes that a read may come across: in the cache, in the bucket, and those
of the documents. -/
def Encountered (key : Key) (get : Bucket) (dir : CacheDir) (documents : Set ArchiveDocument) :
    Set Bytes :=
  {bytes | (∃ file ∈ dir, file.bytes = bytes) ∨
    (∃ objectKey contentHash, fetchPlaintext key get objectKey contentHash = .ok bytes) ∨
    ∃ document ∈ documents, DocumentCodec.canonicalBytes document = .ok bytes}

/-- Bodies of one server. -/
def Bodies.remote (load : Load) (key : Key) (get : Bucket) (disk : CacheDisk) (dir : CacheDir) :
    Bodies where
  load := load
  loadPlaintext objectKey contentHash :=
    (AgentTranscript.loadPlaintext key get disk dir objectKey contentHash).1

omit [DocumentCodec] [CipherSuite] in
theorem transcript_remote {bodies : Bodies} {view : MergedView} {objectKey : String}
    (picked : view.pick = .remote) (stored : view.objectKey = some objectKey) :
    transcript bodies view = bodies.loadPlaintext objectKey view.contentHash >>= fun plain =>
      documentFromPlaintext plain >>= fun document => document.intoTranscript := by
  unfold transcript
  rw [picked, stored]

omit [HarnessNames] [DocumentCodec] [CipherSuite] in
theorem document_readsBack (schema : document.schema = documentSchema)
    (parsed : DocumentReader.fromSlice bytes = .ok document) :
    (documentFromPlaintext bytes >>= fun document => document.intoTranscript) =
      .ok { metadata := document.metadata, body := document.messages } := by
  simp [documentFromPlaintext, parsed, ArchiveDocument.intoTranscript, schema]

end Reading

section Runs

variable [HarnessNames] [DocumentCodec] [DocumentReader] [CipherSuite] {Call Blob : Type}
  [DecidableEq Call] [CatalogCodec Blob]

def submittedDocuments (requests : Call → IngestRequest) : Set ArchiveDocument :=
  {document | ∃ call, document ∈ (requests call).documents}

omit [DocumentReader] [CipherSuite] in
theorem commitRun_documented {requests : Call → IngestRequest} {scans : Call → Scan}
    {cell : Cell Blob ETag} {world : CommitWorld Call Blob}
    (scanned : ∀ call, (requests call).scan = .ok (scans call)) (absent : cell.content = none)
    (run : CommitRun (fun call => (scans call).incoming) cell world) :
    ∀ write ∈ world.log, Documented (submittedDocuments requests) write.2 := by
  intro write member
  rcases run.invariant.history with untouched | written
  · simp [untouched.1] at member
  · obtain ⟨base, body, start, applied, _⟩ := written
    have empty : base = Catalog.empty := by simpa [Reads, Cell.value, absent] using start
    subst base
    refine Documented.serial (documented_empty _) ?_ applied write.2 (List.mem_map_of_mem member)
    intro catalog submitted session present revision found
    obtain ⟨other, _, rfl⟩ := List.mem_map.mp submitted
    obtain ⟨document, among, describes⟩ :=
      scan_documented (scanned other.1) session present revision found
    exact ⟨document, ⟨other.1, among⟩, describes⟩

/-- In every catalog that any number of concurrent ingest runs commit, a session that a
reader takes from the archive reads back as the transcript that one of the scans read for
it: whatever the cache holds and the bucket serves, if the read succeeds, and for certain
if the bucket serves the object and the disk works. -/
theorem archive_readsBack {requests : Call → IngestRequest} {scans : Call → Scan}
    {cell : Cell Blob ETag} {world : CommitWorld Call Blob} {write : Call × Catalog}
    {repoKey : String} {selected : Option HarnessId} {locals : List LocalView}
    {views : List MergedView} {view : MergedView} {key : Key} {get : Bucket} {dir : CacheDir}
    (scanned : ∀ call, (requests call).scan = .ok (scans call)) (absent : cell.content = none)
    (run : CommitRun (fun call => (scans call).incoming) cell world) (logged : write ∈ world.log)
    (listed : merged repoKey selected locals write.2 = .ok views) (member : view ∈ views)
    (picked : view.pick = .remote) (parses : Parses (submittedDocuments requests))
    (collisionFree : Set.InjOn DocumentCodec.sha256Hex
      (Encountered key get dir (submittedDocuments requests))) (load : Load) (disk : CacheDisk) :
    ∃ call, ∃ record ∈ (requests call).records, ∃ found objectKey bytes,
      (requests call).load record.harness record.source = .ok found ∧
      record.harness = view.harness ∧ found.metadata.id = view.sessionId ∧
      record.repoKey = some repoKey ∧ view.objectKey = some objectKey ∧
      DocumentCodec.canonicalBytes (.new record.harness repoKey found) = .ok bytes ∧
      (∀ other, transcript (.remote load key get disk dir) view = .ok other → other = found) ∧
      (disk.Works → (∃ fetched, get objectKey = .ok (some fetched) ∧
          decrypt key objectKey fetched.body = .ok bytes) →
        transcript (.remote load key get disk dir) view = .ok found) := by
  have canonical := (commitRun_canonical (fun call => scan_scanned (scanned call)) absent run
    write logged).2
  obtain ⟨session, present, sameKey, sameRepo, revision, among, object, hash⟩ :=
    merged_remote (keys_nodup_of_sorted canonical.sorted) listed member picked
  obtain ⟨document, submitted, describes⟩ :=
    commitRun_documented scanned absent run write logged session present revision among
  obtain ⟨bytes, serialized, named⟩ := bind_ok describes.contentHash
  have digest : DocumentCodec.sha256Hex bytes = view.contentHash :=
    (Except.ok.inj named).trans hash.symm
  have own : bytes ∈ Encountered key get dir (submittedDocuments requests) :=
    .inr (.inr ⟨document, submitted, serialized⟩)
  have readsBack := document_readsBack describes.schema (parses document submitted bytes serialized)
  -- Whatever passes the hash check is the one document with that hash.
  have only : ∀ plain, (loadPlaintext key get disk dir revision.objectKey view.contentHash).1 =
      .ok plain → plain = bytes := by
    intro plain loaded
    have readable : plain ∈ Encountered key get dir (submittedDocuments requests) := by
      rcases loadPlaintext_ok loaded with hit | fetched
      · obtain ⟨file, found, same⟩ := Option.map_eq_some_iff.mp (CacheDir.hit_eq_some_iff.mp hit).1
        exact .inl ⟨file, List.mem_of_find?_eq_some found, same⟩
      · exact .inr (.inl ⟨_, _, fetched⟩)
    exact collisionFree readable own ((loadPlaintext_hash loaded).trans digest.symm)
  obtain ⟨call, record, recordIn, repo, found, ours, loaded, rfl⟩ := submitted
  have inRepo : repo = repoKey := describes.repoKey.trans sameRepo
  subst inRepo
  obtain ⟨sameHarness, sameId⟩ := Prod.mk.inj (describes.key.trans sameKey)
  refine ⟨call, record, recordIn, found, revision.objectKey, bytes, loaded, sameHarness, sameId,
    ours, object, serialized, ?_, ?_⟩
  · intro other read
    rw [transcript_remote picked object] at read
    obtain ⟨plain, got, parsed⟩ := bind_ok read
    obtain rfl := only plain got
    exact (Except.ok.inj (readsBack.symm.trans parsed)).symm
  · intro works served
    obtain ⟨fetched, got, opened⟩ := served
    have fetches : fetchPlaintext key get revision.objectKey view.contentHash = .ok bytes :=
      fetchPlaintext_ok_iff.mpr ⟨fetched, got, opened, digest⟩
    have answered : ∃ plain,
        (loadPlaintext key get disk dir revision.objectKey view.contentHash).1 = .ok plain := by
      rw [loadPlaintext_works works, fetches]
      cases dir.hit view.contentHash with
      | none => exact ⟨bytes, rfl⟩
      | some plain => exact ⟨plain, rfl⟩
    obtain ⟨plain, got⟩ := answered
    obtain rfl := only plain got
    rw [transcript_remote picked object]
    exact (congrArg (· >>= _) got).trans readsBack

end Runs

section Example

def onceTranscript : Transcript :=
  ⟨⟨"session", 0, none, none, none, none, "a"⟩, []⟩

def onceDocument : ArchiveDocument :=
  .new .codex "repo" onceTranscript

@[reducible] def onceReader : DocumentReader where
  fromSlice bytes := if bytes = [0x61] then .ok onceDocument else .error (.json "expected value")

attribute [local instance] HarnessNames.snakeCase DocumentCodec.padded CatalogCodec.plain
  catalogSuite onceReader

def onceHash : String :=
  DocumentCodec.sha256Hex [0x61]

def onceRecord : SourceRecord where
  harness := .codex
  source := "/s.jsonl"
  fingerprint := "1:2"
  sessionId := "session"
  repoKey := some "repo"
  state := .ready
  freshness := ⟨some 1, none, 0, onceHash⟩
  info := ⟨0, none, none, none, none⟩

def onceRequest : IngestRequest where
  load _ _ := .ok onceTranscript
  nonces _ := []
  report := .default
  records := [onceRecord]
  catalog := .empty

def onceScan : Scan where
  uploads := [{ objectKey := (Revision.bare onceHash 1).objectKey, blob := [0x61] }]
  incoming := Catalog.piece "repo" .codex "session" { Revision.bare onceHash 1 with size := 1 }
  known := [(.codex, "session", onceHash)]
  unchanged := 0
  failures := []
  changedRepos := {"repo"}

theorem onceRequest_scan : onceRequest.scan = .ok onceScan := by decide +kernel

def onceWorld : Option (CommitWorld Unit Catalog) :=
  Transition.execute (commitStep fun _ => onceScan.incoming) (fun _ _ => True)
    (CommitWorld.start (fun _ => onceScan.incoming) Cell.empty)
    (List.replicate 4 ⟨(), [], "etag"⟩)

theorem onceWorld_log : onceWorld.map (·.log) = some [((), onceScan.incoming)] := by
  decide +kernel

def onceView : MergedView where
  harness := .codex
  sessionId := "session"
  pick := .remote
  info := ⟨0, none, none, none, none⟩
  sortAt := 1
  objectKey := some (Revision.bare onceHash 1).objectKey
  contentHash := onceHash
  localSource := none
  localFingerprint := none

theorem onceView_listed :
    merged "repo" none [] onceScan.incoming = .ok [onceView] := by decide +kernel

def onceDir : CacheDir :=
  [.written (cacheName onceHash) [0x61] 0]

theorem onceRequest_documents {document : ArchiveDocument}
    (member : document ∈ submittedDocuments fun _ : Unit => onceRequest) :
    document = onceDocument := by
  obtain ⟨call, record, among, repoKey, transcript, ours, loaded, rfl⟩ := member
  obtain rfl := List.mem_singleton.mp among
  cases ours
  cases loaded
  rfl

/-- The body comes from the cache of a server that cannot reach the bucket. -/
theorem archive_readsBack_once :
    ∃ call : Unit, ∃ record ∈ ((fun _ => onceRequest) call).records, ∃ found objectKey bytes,
      ((fun _ => onceRequest) call).load record.harness record.source = .ok found ∧
      record.harness = onceView.harness ∧ found.metadata.id = onceView.sessionId ∧
      record.repoKey = some "repo" ∧ onceView.objectKey = some objectKey ∧
      DocumentCodec.canonicalBytes (.new record.harness "repo" found) = .ok bytes ∧
      (∀ other, transcript (.remote onceRequest.load exampleKey (fun _ => .ok none) workingDisk
        onceDir) onceView = .ok other → other = found) ∧
      (workingDisk.Works → (∃ fetched, (.ok none : Except Error (Option (Fetched Bytes))) =
            .ok (some fetched) ∧ decrypt exampleKey objectKey fetched.body = .ok bytes) →
        transcript (.remote onceRequest.load exampleKey (fun _ => .ok none) workingDisk onceDir)
          onceView = .ok found) := by
  obtain ⟨world, finished, log⟩ := Option.map_eq_some_iff.mp onceWorld_log
  have logged : ((), onceScan.incoming) ∈ world.log := by simp [log]
  have parses : Parses (submittedDocuments fun _ : Unit => onceRequest) := by
    intro document member bytes serialized
    obtain rfl := onceRequest_documents member
    cases serialized
    decide +kernel
  have only : ∀ bytes ∈ Encountered exampleKey (fun _ => .ok none) onceDir
      (submittedDocuments fun _ : Unit => onceRequest), bytes = [0x61] := by
    intro bytes readable
    rcases readable with cached | fetched | serialized
    · obtain ⟨file, member, rfl⟩ := cached
      obtain rfl := List.mem_singleton.mp member
      rfl
    · obtain ⟨objectKey, contentHash, got⟩ := fetched
      cases got
    · obtain ⟨document, member, written⟩ := serialized
      obtain rfl := onceRequest_documents member
      cases written
      decide
  exact archive_readsBack (fun _ => onceRequest_scan) rfl (Transition.run_of_execute finished)
    logged onceView_listed (List.mem_singleton_self _) rfl parses
    (fun one oneIn other otherIn _ => (only one oneIn).trans (only other otherIn).symm) _ _

end Example

end AgentTranscript
