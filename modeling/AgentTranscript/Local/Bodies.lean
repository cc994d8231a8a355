import AgentTranscript.Local.Steps
import AgentTranscript.Views.Listing

/-! What the records of a store say of the bodies that were read. -/

set_option autoImplicit false

namespace AgentTranscript

section Faithful

variable [HarnessNames] [DocumentCodec]

/-- The hash of a document, empty when it cannot be serialized. -/
def ArchiveDocument.hashOrEmpty (document : ArchiveDocument) : String :=
  match document.contentHash with
  | .ok hash => hash
  | .error _ => ""

/-- The document of a body that was read for a record, by which the record is named. -/
structure SessionDocument (seen : List Machine) (record : SourceRecord)
    (document : ArchiveDocument) : Prop where
  body : ∃ machine ∈ seen, ∃ transcript, ∃ repoKey,
    machine.load record.harness record.source = .ok transcript ∧ record.repoKey = some repoKey ∧
    document = .new record.harness repoKey transcript
  session : record.sessionId = document.metadata.id
  info : record.info = Info.of document.metadata
  freshness : record.freshness =
    Freshness.ofBody document.messages record.freshness.updatedAt document.hashOrEmpty

structure Faithful (seen : List Machine) (key : String) (record : SourceRecord) : Prop where
  place : key = sourceKey record.harness record.source
  ready : record.state = .ready → record.sessionId ≠ "" ∧
    ∃ document, SessionDocument seen record document
  pending : record.state = .pending → record.repoKey = none ∧ record.freshness.contentHash = ""

variable {seen : List Machine} {machine : Machine} {store next : LocalStore} {key : String}
  {record : SourceRecord}

theorem Faithful.later (faithful : Faithful seen key record) (machine : Machine) :
    Faithful (machine :: seen) key record := by
  refine ⟨faithful.place, ?_, faithful.pending⟩
  intro ready
  obtain ⟨named, document, made⟩ := faithful.ready ready
  obtain ⟨reader, among, read⟩ := made.body
  exact ⟨named, document, ⟨reader, List.mem_cons_of_mem machine among, read⟩, made.session,
    made.info, made.freshness⟩

theorem loadedRecord_faithful (among : machine ∈ seen) {harness : HarnessId} {source : String}
    {transcript : Transcript} (loaded : machine.load harness source = .ok transcript)
    (fingerprint : String) (updatedAt : Option DateTime) (repo : SessionRepo) :
    Faithful seen (sourceKey harness source)
      (loadedRecord harness source fingerprint updatedAt transcript repo) := by
  refine ⟨rfl, ?_, ?_⟩
  · intro ready
    unfold loadedRecord at ready
    dsimp only at ready
    split at ready
    · cases ready
    · rename_i named
      refine ⟨fun empty => named (by simpa [loadedRecord] using empty), ?_⟩
      cases repo with
      | key repoKey =>
          exact ⟨.new harness repoKey transcript,
            ⟨machine, among, transcript, repoKey, loaded, rfl, rfl⟩, rfl, rfl, rfl⟩
      | missingCwd => cases ready
      | unresolved reason => cases ready
  · intro pending
    unfold loadedRecord at pending ⊢
    dsimp only at pending ⊢
    split at pending
    · cases pending
    · cases repo with
      | key repoKey => cases pending
      | missingCwd => exact ⟨rfl, rfl⟩
      | unresolved reason => exact ⟨rfl, rfl⟩

theorem reading_faithful (among : machine ∈ seen) {harness : HarnessId}
    {source fingerprint : String} {updatedAt : Option DateTime}
    (read : store.reading machine harness source fingerprint updatedAt = some record) :
    Faithful seen (sourceKey harness source) record := by
  unfold LocalStore.reading at read
  split at read
  · rename_i transcript loaded
    cases read
    exact loadedRecord_faithful among loaded _ _ _
  · cases read
  · cases read
    refine ⟨rfl, ?_, ?_⟩
    · intro ready
      cases ready
    · intro pending
      cases pending

theorem reload_faithful (among : machine ∈ seen) (all : RecordsAll (Faithful seen) store.state)
    (harness : HarnessId) (source fingerprint : String) (updatedAt : Option DateTime) :
    RecordsAll (Faithful seen)
      (store.reload machine harness source fingerprint updatedAt).state := by
  intro key record found
  rw [(reload_spec machine store harness source fingerprint updatedAt).sources] at found
  cases read : store.reading machine harness source fingerprint updatedAt with
  | none =>
      rw [read] at found
      exact all key record found
  | some written =>
      simp only [read, Option.elim_some, SortedMap.get?_insert] at found
      split at found
      · rename_i here
        cases found
        exact here ▸ reading_faithful among read
      · exact all key record found

theorem retain_faithful (all : RecordsAll (Faithful seen) store.state)
    (keep noted : String → SourceRecord → Bool) :
    RecordsAll (Faithful seen) (store.retain keep noted).state := by
  intro key record found
  rw [retain_sources, Option.filter_eq_some_iff] at found
  exact all key record found.1

/-- One change of a diff writes only records of bodies that it read. -/
theorem DiffChange.faithful (change : DiffChange machine store next) (among : machine ∈ seen)
    (all : RecordsAll (Faithful seen) store.state) : RecordsAll (Faithful seen) next.state := by
  cases change with
  | read => exact reload_faithful among all _ _ _ _
  | dropUnseen => exact retain_faithful all _ _
  | enumerated => exact all
  | failed => exact all
  | dropUnowned => exact retain_faithful all _ _
  | resolved cwd =>
      unfold RecordsAll
      rwa [(resolveRepo_kept machine store cwd).1]
  | retry => exact reload_faithful among all _ _ _ _

theorem diff_faithful (among : machine ∈ seen) (all : RecordsAll (Faithful seen) store.state) :
    RecordsAll (Faithful seen) (store.diff machine).state := by
  have keyed : Keyed store := keyed_iff.mpr fun key record found => (all key record found).place
  have changes := diff_changes machine keyed
  generalize store.diff machine = final at changes ⊢
  induction changes with
  | refl => exact all
  | tail _ change ih => exact change.faithful among ih

theorem storeRun_faithful {world : StoreWorld} (run : StoreRun world) :
    RecordsAll (Faithful world.seen) world.store.state := by
  apply storeRun_records Faithful _ _ run
  · intro seen machine key record faithful
    exact faithful.later machine
  · intro seen machine store all
    exact diff_faithful List.mem_cons_self all

end Faithful

section Views

variable {records : List SourceRecord} {view : LocalView} {repoKey : String}

/-- A view is the view of one record, but for the flag. -/
theorem localView_origin (member : view ∈ localViews records) :
    ∃ record ∈ records, record.grouped = true ∧
      view = { viewOf record with ambiguous := view.ambiguous } := by
  obtain ⟨key, chosen⟩ := mem_localViews.mp member
  obtain ⟨state, standing, rfl⟩ := chooseLocal_standing chosen
  obtain ⟨record, among, same⟩ := List.mem_map.mp standing.best.isTopOf.1
  obtain ⟨present, grouped, -⟩ := mem_copiesOf.mp among
  exact ⟨record, present, grouped, by rw [flagged, ← same]⟩

end Views

section Run

variable [HarnessNames] [DocumentCodec] {world : StoreWorld}

/-- The documents of the bodies that the ready records of a store are named by. -/
def StoreWorld.documents (world : StoreWorld) : Set ArchiveDocument :=
  {document | ∃ record ∈ world.store.records, record.state = .ready ∧
    SessionDocument world.seen record document}

/-- The document of the record that a view shows. -/
def StoreWorld.ViewDocument (world : StoreWorld) (view : LocalView)
    (document : ArchiveDocument) : Prop :=
  ∃ record ∈ world.store.records, record.state = .ready ∧
    view = { viewOf record with ambiguous := view.ambiguous } ∧
    SessionDocument world.seen record document

omit [HarnessNames] [DocumentCodec] in
theorem mem_records {store : LocalStore} {record : SourceRecord} :
    record ∈ store.records ↔ ∃ key, store.state.sources.get? key = some record :=
  SortedMap.mem_values

theorem SessionDocument.hash {seen : List Machine} {record : SourceRecord}
    {document : ArchiveDocument} (named : SessionDocument seen record document) {hash : String}
    (hashed : document.contentHash = .ok hash) : record.freshness.contentHash = hash := by
  rw [named.freshness, ArchiveDocument.hashOrEmpty, hashed]
  rfl

omit [HarnessNames] in
theorem contentHash_bytes {document : ArchiveDocument} {bytes : Bytes}
    (serialized : DocumentCodec.canonicalBytes document = .ok bytes) :
    document.contentHash = .ok (DocumentCodec.sha256Hex bytes) := by
  rw [ArchiveDocument.contentHash, serialized]
  rfl

theorem viewDocument_of_repo (run : StoreRun world) {view : LocalView}
    (member : view ∈ localViews world.store.records) (matched : view.repoKey.isSome = true) :
    ∃ document, world.ViewDocument view document := by
  obtain ⟨record, present, grouped, shown⟩ := localView_origin member
  obtain ⟨key, found⟩ := mem_records.mp present
  have faithful := storeRun_faithful run key record found
  have keyed : record.repoKey.isSome = true := by
    rw [shown] at matched
    exact matched
  have ready : record.state = .ready := by
    cases state : record.state with
    | ready => rfl
    | pending =>
        rw [(faithful.pending state).1] at keyed
        cases keyed
    | broken => simp [SourceRecord.grouped, state] at grouped
  obtain ⟨-, document, named⟩ := faithful.ready ready
  exact ⟨document, record, present, ready, shown, named⟩

/-- Every record is where it belongs and says of its body what was read of it; the
views of repositories are those of ready records, and equal hashes name one document. -/
theorem storeRun_records_faithful (run : StoreRun world)
    (serializes : ∀ document, ∃ bytes, DocumentCodec.canonicalBytes document = .ok bytes)
    (injective : Set.InjOn DocumentCodec.canonicalBytes world.documents)
    (collisionFree : Set.InjOn DocumentCodec.sha256Hex
      {bytes | ∃ document ∈ world.documents, DocumentCodec.canonicalBytes document = .ok bytes}) :
    (∀ entry ∈ world.store.state.sources.entries,
        entry.1 = sourceKey entry.2.harness entry.2.source) ∧
      (∀ record ∈ world.store.records, record.state = .ready → record.sessionId ≠ "" ∧
        ∃ document, SessionDocument world.seen record document ∧
          document.contentHash = .ok record.freshness.contentHash) ∧
      (∀ record ∈ world.store.records, record.state = .pending →
        record.repoKey = none ∧ record.freshness.contentHash = "") ∧
      (∀ view ∈ localViews world.store.records, view.repoKey.isSome →
        ∃ document, world.ViewDocument view document) ∧
      ∀ left right leftDocument rightDocument, world.ViewDocument left leftDocument →
        world.ViewDocument right rightDocument →
        left.freshness.contentHash = right.freshness.contentHash →
        leftDocument = rightDocument := by
  have faithful := storeRun_faithful run
  refine ⟨fun entry member => storeRun_keyed run entry member, ?_, ?_, ?_, ?_⟩
  · intro record present ready
    obtain ⟨key, found⟩ := mem_records.mp present
    obtain ⟨named, document, made⟩ := (faithful key record found).ready ready
    obtain ⟨bytes, serialized⟩ := serializes document
    refine ⟨named, document, made, ?_⟩
    rw [contentHash_bytes serialized, made.hash (contentHash_bytes serialized)]
  · intro record present pending
    obtain ⟨key, found⟩ := mem_records.mp present
    exact (faithful key record found).pending pending
  · intro view member matched
    exact viewDocument_of_repo run member matched
  · intro left right leftDocument rightDocument leftNamed rightNamed same
    obtain ⟨leftRecord, leftPresent, leftReady, leftShown, leftMade⟩ := leftNamed
    obtain ⟨rightRecord, rightPresent, rightReady, rightShown, rightMade⟩ := rightNamed
    have leftMember : leftDocument ∈ world.documents :=
      ⟨leftRecord, leftPresent, leftReady, leftMade⟩
    have rightMember : rightDocument ∈ world.documents :=
      ⟨rightRecord, rightPresent, rightReady, rightMade⟩
    obtain ⟨leftBytes, leftSerialized⟩ := serializes leftDocument
    obtain ⟨rightBytes, rightSerialized⟩ := serializes rightDocument
    have leftHash : left.freshness.contentHash = DocumentCodec.sha256Hex leftBytes := by
      rw [leftShown]
      exact leftMade.hash (contentHash_bytes leftSerialized)
    have rightHash : right.freshness.contentHash = DocumentCodec.sha256Hex rightBytes := by
      rw [rightShown]
      exact rightMade.hash (contentHash_bytes rightSerialized)
    have bytes : leftBytes = rightBytes := collisionFree ⟨leftDocument, leftMember, leftSerialized⟩
      ⟨rightDocument, rightMember, rightSerialized⟩ (leftHash.symm.trans (same.trans rightHash))
    exact injective leftMember rightMember
      (leftSerialized.trans (bytes ▸ rightSerialized.symm))

end Run

section One

attribute [local instance] HarnessNames.snakeCase DocumentCodec.padded

theorem oneSession_load {mtimeNs : Nat} {cwd : String} {harness : HarnessId} {source : String}
    {transcript : Transcript}
    (loaded : (oneSession mtimeNs cwd).load harness source = .ok transcript) :
    transcript = sessionIn cwd := by
  unfold Machine.load at loaded
  split at loaded
  · unfold Site.load at loaded
    split at loaded
    · split at loaded
      · exact (Except.ok.inj loaded).symm
      · cases loaded
    · exact (Except.ok.inj loaded).symm
  · cases loaded

def oneSessionRun : StoreWorld where
  store := LocalStore.start.diff (oneSession 1 "/org/repo")
  file := none
  seen := [oneSession 1 "/org/repo"]

theorem oneSessionRun_documents {document : ArchiveDocument}
    (member : document ∈ oneSessionRun.documents) :
    document = .new .codex "https://github.com/org/repo" (sessionIn "/org/repo") := by
  obtain ⟨record, present, -, made⟩ := member
  have listed : oneSessionRun.store.records.map (fun record => (record.harness, record.repoKey)) =
      [(.codex, some "https://github.com/org/repo")] := by
    decide +kernel
  have fields := List.mem_map_of_mem (f := fun record => (record.harness, record.repoKey)) present
  rw [listed, List.mem_singleton, Prod.mk.injEq] at fields
  obtain ⟨machine, among, transcript, repoKey, loaded, keyed, rfl⟩ := made.body
  obtain rfl := List.mem_singleton.mp among
  rw [fields.2, Option.some.injEq] at keyed
  rw [fields.1, ← keyed, oneSession_load loaded]

theorem oneSessionRun_run : StoreRun oneSessionRun := by
  have taken : storeStep .start (.diff (oneSession 1 "/org/repo")) = some oneSessionRun := rfl
  exact .tail .refl trivial taken

theorem oneSessionRun_faithful :
    (∀ entry ∈ oneSessionRun.store.state.sources.entries,
      entry.1 = sourceKey entry.2.harness entry.2.source) ∧
    (∃ record ∈ oneSessionRun.store.records, record.state = .ready) ∧
    ∀ record ∈ oneSessionRun.store.records, record.state = .ready →
      record.sessionId ≠ "" ∧ ∃ document, SessionDocument oneSessionRun.seen record document ∧
        document.contentHash = .ok record.freshness.contentHash := by
  have injective : Set.InjOn DocumentCodec.canonicalBytes oneSessionRun.documents :=
    fun _ left _ right _ =>
      (oneSessionRun_documents left).trans (oneSessionRun_documents right).symm
  have collisionFree : Set.InjOn DocumentCodec.sha256Hex
      {bytes | ∃ document ∈ oneSessionRun.documents,
        DocumentCodec.canonicalBytes document = .ok bytes} := by
    intro left leftNamed right rightNamed _
    obtain ⟨_, leftMember, leftBytes⟩ := leftNamed
    obtain ⟨_, rightMember, rightBytes⟩ := rightNamed
    rw [oneSessionRun_documents leftMember] at leftBytes
    rw [oneSessionRun_documents rightMember] at rightBytes
    exact Except.ok.inj (leftBytes.symm.trans rightBytes)
  obtain ⟨keyed, ready, -⟩ := storeRun_records_faithful oneSessionRun_run (fun _ => ⟨_, rfl⟩)
    injective collisionFree
  have reached : ∃ record ∈ oneSessionRun.store.records, record.state = .ready := by
    decide +kernel
  exact ⟨keyed, reached, ready⟩

end One

end AgentTranscript
