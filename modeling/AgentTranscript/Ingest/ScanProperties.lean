import AgentTranscript.Ingest.Pieces
import AgentTranscript.Ingest.Scan

/-! What a scan submits: the records that are ready and not archived yet. -/

set_option autoImplicit false

namespace AgentTranscript

open Loop

def SourceRecord.key (record : SourceRecord) : SessionKey :=
  (record.harness, record.sessionId)

abbrev SourceRecord.contentHash (record : SourceRecord) : String :=
  record.freshness.contentHash

def SourceRecord.archiveKey (record : SourceRecord) : ArchiveKey :=
  (record.harness, record.sessionId, record.contentHash)

def Archives (sessions : List SessionRecord) (key : ArchiveKey) : Prop :=
  ∃ revision ∈ revisionsOf sessions (key.1, key.2.1), revision.contentHash = key.2.2

theorem archives_iff {sessions : List SessionRecord} {key : ArchiveKey} :
    Archives sessions key ↔ ∃ session ∈ sessions, session.key = (key.1, key.2.1) ∧
      ∃ revision ∈ session.revisions, revision.contentHash = key.2.2 := by
  simp only [Archives, mem_revisionsOf]
  constructor
  · intro given
    obtain ⟨revision, ⟨session, member, sameKey, included⟩, same⟩ := given
    exact ⟨session, member, sameKey, revision, included, same⟩
  · intro given
    obtain ⟨session, member, sameKey, revision, included, same⟩ := given
    exact ⟨revision, ⟨session, member, sameKey, included⟩, same⟩

theorem mem_catalogIndex {catalog : Catalog} {key : ArchiveKey} :
    key ∈ catalogIndex catalog ↔ Archives catalog.sessions key := by
  rw [archives_iff]
  obtain ⟨harness, sessionId, contentHash⟩ := key
  simp only [catalogIndex, List.mem_flatMap, List.mem_map, Prod.mk.injEq, SessionRecord.key]
  constructor
  · intro given
    obtain ⟨session, member, revision, included, sameHarness, sameId, sameHash⟩ := given
    exact ⟨session, member, ⟨sameHarness, sameId⟩, revision, included, sameHash⟩
  · intro given
    obtain ⟨session, member, ⟨sameHarness, sameId⟩, revision, included, sameHash⟩ := given
    exact ⟨session, member, revision, included, sameHarness, sameId, sameHash⟩

theorem mergeCatalogs_archives [HarnessNames] {base incoming merged : Catalog}
    (accepted : mergeCatalogs base incoming = .ok merged) {key : ArchiveKey} :
    Archives merged.sessions key ↔
      Archives base.sessions key ∨ Archives incoming.sessions key := by
  simp only [archives_iff]
  constructor
  · intro given
    obtain ⟨session, member, sameKey, revision, included, same⟩ := given
    obtain ⟨source, side, ofKey, _, found⟩ :=
      (mergeCatalogs_origin accepted member).2 revision included
    rcases side with stored | submitted
    · exact .inl ⟨source, stored, ofKey.trans sameKey, revision, found, same⟩
    · exact .inr ⟨source, submitted, ofKey.trans sameKey, revision, found, same⟩
  · intro either
    rcases either with stored | submitted
    · obtain ⟨session, member, sameKey, revision, included, same⟩ := stored
      obtain ⟨later, present, continued⟩ := mergeCatalogs_continues accepted member
      exact ⟨later, present, continued.key.trans sameKey, revision,
        continued.revisions included, same⟩
    · obtain ⟨session, member, sameKey, revision, included, same⟩ := submitted
      obtain ⟨later, present, ofKey, _, covered⟩ := mergeCatalogs_represents accepted member
      obtain ⟨other, found, agrees⟩ := covered revision included
      exact ⟨later, present, ofKey.trans sameKey, other, found, agrees.trans same⟩

theorem archives_piece {repoKey sessionId : String} {harness : HarnessId} {revision : Revision}
    {key : ArchiveKey} :
    Archives (Catalog.piece repoKey harness sessionId revision).sessions key ↔
      key = (harness, sessionId, revision.contentHash) := by
  obtain ⟨keyHarness, keyId, keyHash⟩ := key
  simp only [archives_iff, Catalog.piece, List.mem_singleton, exists_eq_left, SessionRecord.key,
    Prod.mk.injEq, and_assoc]
  constructor
  · intro given
    obtain ⟨sameHarness, sameId, sameHash⟩ := given
    exact ⟨sameHarness.symm, sameId.symm, sameHash.symm⟩
  · intro given
    obtain ⟨sameHarness, sameId, sameHash⟩ := given
    exact ⟨sameHarness.symm, sameId.symm, sameHash.symm⟩

/-- A merged catalog refers to the objects that either side refers to: a revision
that its session already had under its hash has the same object. -/
theorem mergeCatalogs_objects [HarnessNames] {base incoming merged : Catalog}
    (accepted : mergeCatalogs base incoming = .ok merged) (wellFormed : WellFormed merged)
    (named : ∀ session ∈ incoming.sessions, ∀ revision ∈ session.revisions,
      objectKey revision.contentHash = .ok revision.objectKey) (object : String) :
    (∃ session ∈ merged.sessions, ∃ revision ∈ session.revisions, revision.objectKey = object) ↔
      (∃ session ∈ base.sessions, ∃ revision ∈ session.revisions, revision.objectKey = object) ∨
        ∃ session ∈ incoming.sessions, ∃ revision ∈ session.revisions,
          revision.objectKey = object := by
  constructor
  · intro given
    obtain ⟨session, member, revision, included, same⟩ := given
    obtain ⟨source, side, _, _, found⟩ := (mergeCatalogs_origin accepted member).2 revision included
    rcases side with stored | submitted
    · exact .inl ⟨source, stored, revision, found, same⟩
    · exact .inr ⟨source, submitted, revision, found, same⟩
  · intro either
    rcases either with old | new
    · obtain ⟨session, member, revision, included, same⟩ := old
      obtain ⟨later, present, continued⟩ := mergeCatalogs_continues accepted member
      exact ⟨later, present, revision, continued.revisions included, same⟩
    · obtain ⟨session, member, revision, included, same⟩ := new
      obtain ⟨later, present, _, _, covered⟩ := mergeCatalogs_represents accepted member
      obtain ⟨stored, among, hash⟩ := covered revision included
      have key := wellFormed.stored later present stored among
      rw [hash, named session member revision included] at key
      exact ⟨later, present, stored, among, (Except.ok.inj key).symm.trans same⟩

section Steady

variable [HarnessNames] [DocumentCodec] {load : Load} {nonces : Nat → Nonce}

/-- The source of a ready record still holds the body the record describes. -/
structure Unmoved (load : Load) (record : SourceRecord) (repoKey : String)
    (transcript : Transcript) : Prop where
  repo : record.repoKey = some repoKey
  loaded : load record.harness record.source = .ok transcript
  sessionId : transcript.metadata.id = record.sessionId
  identified : record.sessionId.isEmpty = false
  contentHash : (ArchiveDocument.new record.harness repoKey transcript).contentHash =
    .ok record.contentHash
  freshness : Freshness.ofBody transcript.body record.freshness.updatedAt record.contentHash =
    record.freshness

/-- No load fails and no file changes between the diff and the end of the scan. -/
def Steady (load : Load) (records : List SourceRecord) : Prop :=
  ∀ record ∈ records, record.state = .ready →
    ∃ repoKey transcript, Unmoved load record repoKey transcript

def Scan.submit (scan : Scan) (record : SourceRecord) (repoKey : String) (revision : Revision)
    (blob : Bytes) (incoming : Catalog) : Scan :=
  { scan with
    incoming := incoming
    known := record.archiveKey :: scan.known
    uploads := scan.uploads ++ [{ objectKey := revision.objectKey, blob := blob }]
    changedRepos := insert repoKey scan.changedRepos }

omit [HarnessNames] in
theorem contentHash_objectKey {document : ArchiveDocument} {hash : String}
    (hashed : document.contentHash = .ok hash) : ∃ key, objectKey hash = .ok key := by
  obtain ⟨bytes, _, shape⟩ := bind_ok hashed
  cases shape
  simp [objectKey, DocumentCodec.sha256Hex_length, DocumentCodec.sha256Hex_digits]

theorem scanRecord_unmoved (nonces : Nat → Nonce) {scan : Scan} {record : SourceRecord}
    {repoKey : String} {transcript : Transcript} (unmoved : Unmoved load record repoKey transcript)
    (ready : record.state = .ready) (unknown : record.archiveKey ∉ scan.known) :
    ∃ key, objectKey record.contentHash = .ok key ∧
      scanRecord load nonces scan record = (do
        let blob ← encryptDocument (nonces scan.uploads.length) key
          (ArchiveDocument.new record.harness repoKey transcript)
        let revision : Revision :=
          ⟨key, record.freshness, Info.of transcript.metadata, blob.length⟩
        let incoming ← mergeCatalogs scan.incoming
          (Catalog.piece repoKey record.harness record.sessionId revision)
        .ok (scan.submit record repoKey revision blob incoming)) := by
  obtain ⟨key, named⟩ := contentHash_objectKey unmoved.contentHash
  refine ⟨key, named, ?_⟩
  have absent : (record.harness, record.sessionId, record.freshness.contentHash) ∉ scan.known :=
    unknown
  have made : ∀ size, (ArchiveDocument.new record.harness repoKey transcript).revision
      record.contentHash record.freshness.updatedAt size =
      .ok ⟨key, record.freshness, Info.of transcript.metadata, size⟩ := by
    intro size
    refine ArchiveDocument.revision_ok_iff.mpr ⟨named, ?_, rfl, rfl⟩
    exact unmoved.freshness.symm
  simp only [scanRecord, ready, ne_eq, not_true_eq_false, if_false, unmoved.repo, absent,
    scanSource, unmoved.loaded, unmoved.sessionId, unmoved.identified, Bool.false_eq_true]
  rw [unmoved.contentHash, ok_bind, if_neg absent, named, ok_bind]
  simp only [made, ok_bind]
  rfl

theorem scanRecord_known {scan : Scan} {record : SourceRecord} {repoKey : String}
    (ready : record.state = .ready) (ours : record.repoKey = some repoKey)
    (known : record.archiveKey ∈ scan.known) :
    scanRecord load nonces scan record = .ok { scan with unchanged := scan.unchanged + 1 } := by
  have present : (record.harness, record.sessionId, record.freshness.contentHash) ∈ scan.known :=
    known
  simp [scanRecord, ready, ours, present]

theorem scanRecord_skip {scan : Scan} {record : SourceRecord} (other : record.state ≠ .ready) :
    scanRecord load nonces scan record = .ok scan := by
  simp [scanRecord, other]

/-- What a scan knows after the records `seen`: its incoming catalog holds the
ready records that the catalog does not archive, and its uploads their bodies. -/
structure Scanning (catalog : Catalog) (seen : List SourceRecord) (scan : Scan) : Prop where
  wellFormed : WellFormed scan.incoming
  known : ∀ key, key ∈ scan.known ↔
    Archives catalog.sessions key ∨ Archives scan.incoming.sessions key
  origin : ∀ session ∈ scan.incoming.sessions, ∀ revision ∈ session.revisions,
    ∃ record ∈ seen, record.state = .ready ∧ record.key = session.key ∧
      record.repoKey = some session.repoKey ∧ revision.freshness = record.freshness ∧
      ¬ Archives catalog.sessions record.archiveKey
  covered : ∀ record ∈ seen, record.state = .ready → record.archiveKey ∈ scan.known
  uploads : ∀ object, object ∈ scan.uploads.map (·.objectKey) ↔
    ∃ session ∈ scan.incoming.sessions, ∃ revision ∈ session.revisions,
      revision.objectKey = object

variable {catalog : Catalog} {seen : List SourceRecord} {current : Scan} {record : SourceRecord}

omit [DocumentCodec] in
theorem Scanning.start (report : Report) (catalog : Catalog) :
    Scanning catalog [] (.start report catalog) where
  wellFormed := .empty
  known := by simp [Scan.start, mem_catalogIndex, Catalog.empty, archives_iff]
  origin := by simp [Scan.start, Catalog.empty]
  covered := by simp
  uploads := by simp [Scan.start, Catalog.empty]

omit [DocumentCodec] in
theorem Scanning.pass (holds : Scanning catalog seen current) {next : Scan}
    (incoming : next.incoming = current.incoming) (known : next.known = current.known)
    (uploads : next.uploads = current.uploads)
    (settled : record.state = .ready → record.archiveKey ∈ current.known) :
    Scanning catalog (seen ++ [record]) next where
  wellFormed := incoming ▸ holds.wellFormed
  known := by
    rw [known, incoming]
    exact holds.known
  origin := by
    intro session member revision included
    rw [incoming] at member
    obtain ⟨origin, present, rest⟩ := holds.origin session member revision included
    exact ⟨origin, List.mem_append_left _ present, rest⟩
  covered := by
    intro other member ready
    rw [known]
    rcases List.mem_append.mp member with old | new
    · exact holds.covered other old ready
    · cases List.mem_singleton.mp new
      exact settled ready
  uploads := by
    rw [uploads, incoming]
    exact holds.uploads

omit [DocumentCodec] in
theorem Scanning.submit (holds : Scanning catalog seen current) {repoKey : String}
    {revision : Revision} {blob : Bytes} {incoming : Catalog} (ready : record.state = .ready)
    (ours : record.repoKey = some repoKey) (unknown : record.archiveKey ∉ current.known)
    (named : objectKey record.contentHash = .ok revision.objectKey)
    (described : revision.freshness = record.freshness)
    (merged : mergeCatalogs current.incoming
      (Catalog.piece repoKey record.harness record.sessionId revision) = .ok incoming) :
    Scanning catalog (seen ++ [record]) (current.submit record repoKey revision blob incoming) := by
  have hash : revision.contentHash = record.contentHash :=
    congrArg Freshness.contentHash described
  have piece : WellFormed (Catalog.piece repoKey record.harness record.sessionId revision) :=
    .piece _ _ _ (hash ▸ named)
  have wellFormed : WellFormed incoming := holds.wellFormed.merge piece merged
  have added : ∀ key, Archives incoming.sessions key ↔
      Archives current.incoming.sessions key ∨ key = record.archiveKey := by
    intro key
    rw [mergeCatalogs_archives merged, archives_piece, hash, SourceRecord.archiveKey]
  refine ⟨wellFormed, ?_, ?_, ?_, ?_⟩
  · intro key
    rw [show (current.submit record repoKey revision blob incoming).known =
      record.archiveKey :: current.known from rfl, List.mem_cons, holds.known]
    rw [show (current.submit record repoKey revision blob incoming).incoming = incoming from rfl,
      added]
    tauto
  · intro session member other included
    obtain ⟨source, side, sameKey, sameRepo, found⟩ :=
      (mergeCatalogs_origin merged member).2 other included
    rcases side with stored | submitted
    · obtain ⟨origin, present, isReady, ofKey, ofRepo, rest⟩ :=
        holds.origin source stored other found
      exact ⟨origin, List.mem_append_left _ present, isReady, ofKey.trans sameKey,
        sameRepo ▸ ofRepo, rest⟩
    · cases List.mem_singleton.mp submitted
      cases List.mem_singleton.mp found
      refine ⟨record, by simp, ready, sameKey, sameRepo ▸ ours, described, ?_⟩
      exact fun archived => unknown ((holds.known _).mpr (.inl archived))
  · intro other member isReady
    rcases List.mem_append.mp member with old | new
    · exact List.mem_cons_of_mem _ (holds.covered other old isReady)
    · cases List.mem_singleton.mp new
      exact List.mem_cons_self
  · intro object
    have named : ∀ session ∈ (Catalog.piece repoKey record.harness record.sessionId revision).sessions,
        ∀ other ∈ session.revisions, objectKey other.contentHash = .ok other.objectKey :=
      piece.stored
    have objects := mergeCatalogs_objects merged wellFormed named object
    simp only [Scan.submit, List.map_append, List.map_singleton, List.mem_append,
      List.mem_singleton, holds.uploads, objects]
    apply or_congr_right
    simp [Catalog.piece, eq_comm]

theorem Scanning.step (holds : Scanning catalog seen current) {next : Scan}
    (steady : record.state = .ready →
      ∃ repoKey transcript, Unmoved load record repoKey transcript)
    (accepted : scanRecord load nonces current record = .ok next) :
    Scanning catalog (seen ++ [record]) next := by
  by_cases ready : record.state = .ready
  · obtain ⟨repoKey, transcript, unmoved⟩ := steady ready
    by_cases known : record.archiveKey ∈ current.known
    · rw [scanRecord_known ready unmoved.repo known] at accepted
      cases accepted
      exact holds.pass rfl rfl rfl fun _ => known
    · obtain ⟨key, named, shape⟩ := scanRecord_unmoved nonces unmoved ready known
      rw [shape] at accepted
      obtain ⟨blob, _, accepted⟩ := bind_ok accepted
      obtain ⟨incoming, merged, accepted⟩ := bind_ok accepted
      cases accepted
      exact holds.submit ready unmoved.repo known named rfl merged
  · rw [scanRecord_skip ready] at accepted
    cases accepted
    exact holds.pass rfl rfl rfl fun isReady => absurd isReady ready

omit [DocumentCodec] in
theorem Scanning.mem_uploads (scanning : Scanning catalog seen current)
    {object : String} : object ∈ current.uploads.map (·.objectKey) ↔
      ∃ record ∈ seen, record.state = .ready ∧ ¬ Archives catalog.sessions record.archiveKey ∧
        objectKey record.contentHash = .ok object := by
  rw [scanning.uploads]
  constructor
  · intro given
    obtain ⟨session, member, revision, included, same⟩ := given
    obtain ⟨record, present, ready, _, _, described, fresh⟩ :=
      scanning.origin session member revision included
    have named := scanning.wellFormed.stored session member revision included
    rw [same, Revision.contentHash, described] at named
    exact ⟨record, present, ready, fresh, named⟩
  · intro given
    obtain ⟨record, present, ready, fresh, named⟩ := given
    have known := (scanning.known _).mp (scanning.covered record present ready)
    obtain ⟨session, member, _, revision, included, hash⟩ :=
      archives_iff.mp (known.resolve_left fresh)
    have key := scanning.wellFormed.stored session member revision included
    rw [hash, SourceRecord.archiveKey, named] at key
    exact ⟨session, member, revision, included, (Except.ok.inj key).symm⟩

theorem scan_scanning {report : Report} {records : List SourceRecord} {result : Scan}
    (steady : Steady load records) (accepted : scan load nonces report records catalog = .ok result) :
    Scanning catalog records result :=
  foldlM_ok_invariant accepted (fun seen current => Scanning catalog seen current)
    (.start report catalog) fun _ record _ _ member holds stepped =>
      holds.step (steady record member) stepped

theorem ingest_ok {report : Report} {records : List SourceRecord} {committed : Catalog}
    {result : Scan}
    (succeeded : ingest load nonces report records catalog = .ok (result, committed)) :
    scan load nonces report records catalog = .ok result ∧
      commitAlone catalog result.incoming = .ok committed := by
  obtain ⟨scanned, accepted, rest⟩ := bind_ok succeeded
  obtain ⟨stored, commits, shape⟩ := bind_ok rest
  cases shape
  exact ⟨accepted, commits⟩

section Alone

open VersionedCell

variable {Blob : Type} [CatalogCodec Blob] {incoming : Catalog} {cell : Cell Blob ETag}
  {world : CommitWorld Unit Blob}

omit [DocumentCodec] in
/-- A call that submits nothing only reads. -/
theorem commitRun_reading (empty : incoming.sessions = [])
    (run : CommitRun (fun _ => incoming) cell world) : world.cell = cell ∧
      (world.calls () = .reading ∨ ∃ result, world.calls () = .returned result ∧
        ∀ catalog, result = .ok catalog → Reads cell.value catalog) := by
  refine Transition.Run.invariant run (fun world => world.cell = cell ∧
    (world.calls () = .reading ∨ ∃ result, world.calls () = .returned result ∧
      ∀ catalog, result = .ok catalog → Reads cell.value catalog)) ?_ ?_
  · exact ⟨rfl, .inl (by simp [CommitWorld.start, commitStart, empty])⟩
  · intro current action next given _ taken
    obtain ⟨same, reading | ⟨result, finished, _⟩⟩ := given
    · unfold commitStep at taken
      rw [reading] at taken
      dsimp only at taken
      split at taken
      · rename_i catalog etag loaded
        cases taken
        refine ⟨same, .inr ⟨.ok catalog, by simp [CommitWorld.setPhase], ?_⟩⟩
        intro other shape
        cases shape
        exact same ▸ (loadCatalog_ok loaded).1
      · rename_i reason _
        cases taken
        refine ⟨same, .inr ⟨.error reason, by simp [CommitWorld.setPhase], ?_⟩⟩
        intro other shape
        cases shape
    · unfold commitStep at taken
      rw [finished] at taken
      cases taken

omit [DocumentCodec] in
/-- What a commit returns that meets no other is what `commitAlone` computes. -/
theorem commitRun_alone (run : CommitRun (fun _ => incoming) cell world) {committed : Catalog}
    (returned : world.calls () = .returned (.ok committed)) :
    ∃ catalog, Reads cell.value catalog ∧ commitAlone catalog incoming = .ok committed := by
  by_cases empty : incoming.sessions = []
  · obtain ⟨-, reading | ⟨result, finished, reads⟩⟩ := commitRun_reading empty run
    · rw [reading] at returned
      cases returned
    · rw [finished] at returned
      cases returned
      exact ⟨committed, reads committed rfl, by simp [commitAlone, empty]⟩
  · have serializable := commitCatalog_serializable (fun _ => empty) run
    have logged : ((), committed) ∈ world.log := (serializable.returned () committed).mp returned
    obtain ⟨catalog, start, applied, _⟩ := serializable.serial (List.ne_nil_of_mem logged)
    have single : world.log = [((), committed)] := by
      obtain ⟨before, after, shape⟩ := List.append_of_mem logged
      have once := serializable.once
      rw [shape] at once ⊢
      cases before with
      | nil =>
          cases after with
          | nil => rfl
          | cons => simp at once
      | cons => simp at once
    rw [single] at applied
    obtain ⟨first, updated, shape⟩ := bind_ok applied
    cases shape
    exact ⟨catalog, start, by simpa [commitAlone, empty] using updated⟩

end Alone

end Steady

section Example

attribute [local instance] HarnessNames.snakeCase DocumentCodec.padded

/-- The body of a source that is its own text; the first letter names the session. -/
def textTranscript (text : String) : Transcript where
  metadata := ⟨String.ofList (text.toList.take 1), 0, none, none, none, none, text⟩
  body := []

def loadText : Load := fun _ source => .ok (textTranscript source)

def textHash (text : String) : String :=
  DocumentCodec.sha256Hex (text.toList.map fun char => UInt8.ofNat char.toNat)

def textRecord (repoKey text : String) (updatedAt : DateTime) : SourceRecord where
  harness := .codex
  source := text
  fingerprint := "0:0"
  sessionId := (textTranscript text).metadata.id
  repoKey := some repoKey
  state := .ready
  freshness := ⟨some updatedAt, none, 0, textHash text⟩
  info := ⟨0, none, none, none, none⟩

theorem textRecord_unmoved (repoKey : String) {text : String} (updatedAt : DateTime)
    (named : (textTranscript text).metadata.id.isEmpty = false) :
    Unmoved loadText (textRecord repoKey text updatedAt) repoKey (textTranscript text) where
  repo := rfl
  loaded := rfl
  sessionId := rfl
  identified := named
  contentHash := rfl
  freshness := rfl

theorem textRecords_steady (entries : List (String × String × DateTime))
    (named : ∀ entry ∈ entries, (textTranscript entry.2.1).metadata.id.isEmpty = false) :
    Steady loadText (entries.map fun entry => textRecord entry.1 entry.2.1 entry.2.2) := by
  intro record member _
  obtain ⟨entry, present, rfl⟩ := List.mem_map.mp member
  exact ⟨_, _, textRecord_unmoved entry.1 entry.2.2 (named entry present)⟩

end Example

end AgentTranscript
