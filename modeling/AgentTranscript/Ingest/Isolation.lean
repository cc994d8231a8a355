import AgentTranscript.Ingest.Current
import AgentTranscript.Catalog.Convergence

/-! One session recorded under two repositories fails the scan, or the commit, of
every other session. -/

set_option autoImplicit false

namespace AgentTranscript

open Loop

section Merge

variable [HarnessNames]

def repoOf? (sessions : List SessionRecord) (key : SessionKey) : Option String :=
  (sessions.find? fun session => session.key = key).map (·.repoKey)

omit [HarnessNames] in
theorem repoOf?_eq_some {sessions : List SessionRecord} {key : SessionKey} {repo : String}
    (found : repoOf? sessions key = some repo) :
    ∃ session ∈ sessions, session.key = key ∧ session.repoKey = repo := by
  obtain ⟨session, first, same⟩ := Option.map_eq_some_iff.mp found
  exact ⟨session, List.mem_of_find?_eq_some first, by simpa using List.find?_some first, same⟩

theorem mergeSession_ok_iff_repoOf? {sessions : List SessionRecord} {incoming : SessionRecord} :
    (∃ merged, mergeSession sessions incoming = .ok merged) ↔
      ∀ repo, repoOf? sessions incoming.key = some repo → repo = incoming.repoKey := by
  rw [mergeSession_ok_iff]
  constructor
  · intro agreed repo found
    obtain ⟨existing, first, rfl⟩ := Option.map_eq_some_iff.mp found
    exact agreed existing first
  · exact fun agreed existing first =>
      agreed existing.repoKey (Option.map_eq_some_iff.mpr ⟨existing, first, rfl⟩)

theorem mergeSession_repoOf? {sessions merged : List SessionRecord} {incoming : SessionRecord}
    (accepted : mergeSession sessions incoming = .ok merged) (key : SessionKey) :
    repoOf? merged key = (repoOf? sessions key).or
      (if incoming.key = key then some incoming.repoKey else none) := by
  induction sessions generalizing merged with
  | nil =>
      cases accepted
      by_cases same : incoming.key = key <;> simp [repoOf?, same]
  | cons head tail ih =>
      unfold mergeSession at accepted
      split at accepted
      · rename_i sameKey
        split at accepted
        · cases accepted
        · cases accepted
          by_cases ours : head.key = key
          · simp [repoOf?, ours]
          · have other : incoming.key ≠ key := fun equal => ours (sameKey.trans equal)
            simp [repoOf?, ours, other]
      · obtain ⟨rest, recursive, shape⟩ := bind_ok accepted
        cases shape
        by_cases ours : head.key = key
        · simp [repoOf?, ours]
        · have later := ih recursive
          simp only [repoOf?] at later
          simp [repoOf?, ours, later]

theorem foldlM_mergeSession_ok_iff {base incoming : List SessionRecord}
    (unique : (incoming.map (·.key)).Nodup) :
    (∃ merged, incoming.foldlM mergeSession base = .ok merged) ↔
      ∀ session ∈ incoming, ∀ repo, repoOf? base session.key = some repo →
        repo = session.repoKey := by
  induction incoming generalizing base with
  | nil => exact ⟨fun _ => by simp, fun _ => ⟨base, rfl⟩⟩
  | cons head tail ih =>
      rw [List.map_cons, List.nodup_cons] at unique
      have apart : ∀ session ∈ tail, head.key ≠ session.key :=
        fun session member same => unique.1 (same ▸ List.mem_map_of_mem member)
      rw [List.forall_mem_cons, ← mergeSession_ok_iff_repoOf?]
      constructor
      · intro given
        obtain ⟨merged, folded⟩ := given
        rw [foldlM_cons] at folded
        obtain ⟨next, stepped, folded⟩ := bind_ok folded
        refine ⟨⟨next, stepped⟩, ?_⟩
        intro session member repo found
        apply (ih unique.2).mp ⟨merged, folded⟩ session member repo
        rw [mergeSession_repoOf? stepped, found, Option.some_or]
      · intro given
        obtain ⟨⟨next, stepped⟩, agreed⟩ := given
        have onward : ∃ merged, tail.foldlM mergeSession next = .ok merged := by
          apply (ih unique.2).mpr
          intro session member repo found
          rw [mergeSession_repoOf? stepped, if_neg (apart session member), Option.or_none] at found
          exact agreed session member repo found
        obtain ⟨merged, folded⟩ := onward
        exact ⟨merged, by rw [foldlM_cons, stepped, ok_bind, folded]⟩

theorem mergeCatalogs_ok_iff_repoOf? {base incoming : Catalog} (valid : validate base = .ok ())
    (wellFormed : WellFormed incoming) : (∃ merged, mergeCatalogs base incoming = .ok merged) ↔
      ∀ session ∈ incoming.sessions, ∀ repo, repoOf? base.sessions session.key = some repo →
        repo = session.repoKey := by
  rw [← foldlM_mergeSession_ok_iff (keys_nodup_of_sorted wellFormed.sorted)]
  obtain ⟨schema, occupied⟩ := validate_ok_iff.mp valid
  constructor
  · intro given
    obtain ⟨merged, accepted⟩ := given
    obtain ⟨_, _, sessions, folded, _⟩ := mergeCatalogs_ok_iff.mp accepted
    exact ⟨sessions, folded⟩
  · intro given
    obtain ⟨sessions, folded⟩ := given
    refine ⟨_, mergeCatalogs_ok_iff.mpr ⟨schema, wellFormed.schema, sessions, folded, ?_, rfl⟩⟩
    exact foldlM_mergeSession_nonempty folded (fun session member => (occupied session member).1)
      wellFormed.nonempty

end Merge

section Ingest

variable [HarnessNames] [DocumentCodec]

/-- A record of a session that appears under one repository only, across all
records and the catalog. -/
def OneRepo (records : List SourceRecord) (catalog : Catalog) (record : SourceRecord) : Prop :=
  (∀ other ∈ records, other.key = record.key → other.repoKey = record.repoKey) ∧
    ∀ session ∈ catalog.sessions, session.key = record.key →
      record.repoKey = some session.repoKey

/-- The run succeeds, uploads the body of the record and submits its revision. -/
def Submitted (load : Load) (nonces : Nat → Nonce) (report : Report)
    (records : List SourceRecord) (catalog : Catalog) (record : SourceRecord) : Prop :=
  ∃ result committed, ingest load nonces report records catalog = .ok (result, committed) ∧
    Archives result.incoming.sessions record.archiveKey ∧
    ∃ object, objectKey record.contentHash = .ok object ∧
      object ∈ result.uploads.map (·.objectKey)

variable {load : Load} {nonces : Nat → Nonce} {report : Report} {records : List SourceRecord}
  {catalog committed : Catalog} {result : Scan}

abbrev Seals : Prop :=
  ∀ nonce object bytes, ∃ blob, DocumentCodec.encrypt nonce object bytes = .ok blob

omit [DocumentCodec] in
theorem Scanning.repo {seen : List SourceRecord} (scanning : Scanning catalog seen result)
    {session : SessionRecord} (member : session ∈ result.incoming.sessions) :
    ∃ record ∈ seen, record.key = session.key ∧ record.repoKey = some session.repoKey ∧
      ¬ Archives catalog.sessions record.archiveKey := by
  obtain ⟨revision, included⟩ :=
    List.exists_mem_of_ne_nil _ (scanning.wellFormed.nonempty session member)
  obtain ⟨record, present, _, sameKey, ours, _, fresh⟩ :=
    scanning.origin session member revision included
  exact ⟨record, present, sameKey, ours, fresh⟩

/-- No two records that would be sent disagree on the repository of their session. -/
def Agreed (records : List SourceRecord) (catalog : Catalog) : Prop :=
  ∀ left ∈ records, ∀ right ∈ records, ¬ Archives catalog.sessions left.archiveKey →
    ¬ Archives catalog.sessions right.archiveKey → left.key = right.key →
    left.repoKey = right.repoKey

structure Peaceful (records : List SourceRecord) (catalog : Catalog) : Prop where
  among : Agreed records catalog
  archive : ∀ record ∈ records, ¬ Archives catalog.sessions record.archiveKey →
    ∀ repo, repoOf? catalog.sessions record.key = some repo → record.repoKey = some repo

theorem scanRecord_total (nonces : Nat → Nonce) {seen : List SourceRecord} {current : Scan}
    (holds : Scanning catalog seen current) (included : seen ⊆ records) (seals : Seals)
    (agreed : Agreed records catalog) {record : SourceRecord} (member : record ∈ records)
    (steady : record.state = .ready →
      ∃ repoKey transcript, Unmoved load record repoKey transcript) :
    ∃ next, scanRecord load nonces current record = .ok next := by
  by_cases ready : record.state = .ready
  · obtain ⟨repoKey, transcript, unmoved⟩ := steady ready
    by_cases known : record.archiveKey ∈ current.known
    · exact ⟨_, scanRecord_known ready unmoved.repo known⟩
    · obtain ⟨key, named, shape⟩ := scanRecord_unmoved nonces unmoved ready known
      obtain ⟨bytes, serialized, _⟩ := bind_ok unmoved.contentHash
      obtain ⟨blob, sealed⟩ := seals (nonces current.uploads.length) key bytes
      have piece : WellFormed (Catalog.piece repoKey record.harness record.sessionId
          ⟨key, record.freshness, Info.of transcript.metadata, blob.length⟩) :=
        .piece _ _ _ named
      have accepted : ∃ merged, mergeCatalogs current.incoming (Catalog.piece repoKey
          record.harness record.sessionId
          ⟨key, record.freshness, Info.of transcript.metadata, blob.length⟩) = .ok merged := by
        apply (mergeCatalogs_ok_iff_repoOf? holds.wellFormed.validate piece).mpr
        intro session single repo found
        cases List.mem_singleton.mp single
        obtain ⟨existing, present, sameKey, rfl⟩ := repoOf?_eq_some found
        obtain ⟨other, otherIn, ofKey, theirs, fresh⟩ := holds.repo present
        have unarchived : ¬ Archives catalog.sessions record.archiveKey :=
          fun archived => known ((holds.known _).mpr (.inl archived))
        have same := agreed other (included otherIn) record member fresh unarchived
          (ofKey.trans sameKey)
        rw [theirs, unmoved.repo] at same
        exact Option.some.inj same
      obtain ⟨merged, accepted⟩ := accepted
      exact ⟨_, by
        simp only [shape, encryptDocument, serialized, ok_bind, sealed, accepted]; rfl⟩
  · exact ⟨current, scanRecord_skip ready⟩

theorem scan_total (steady : Steady load records) (seals : Seals)
    (agreed : Agreed records catalog) :
    ∃ result, scan load nonces report records catalog = .ok result := by
  have finishes : ∃ result, scan load nonces report records catalog = .ok result ∧
      ∃ seen ⊆ records, Scanning catalog seen result := by
    apply foldlM_total (fun current => ∃ seen ⊆ records, Scanning catalog seen current)
    · exact ⟨[], by simp, .start report catalog⟩
    · intro record member current given
      obtain ⟨seen, included, holds⟩ := given
      obtain ⟨next, accepted⟩ :=
        scanRecord_total nonces holds included seals agreed member (steady record member)
      exact ⟨next, accepted, seen ++ [record],
        List.append_subset.mpr ⟨included, by simpa using member⟩,
        holds.step (steady record member) accepted⟩
  obtain ⟨result, accepted, _⟩ := finishes
  exact ⟨result, accepted⟩

theorem ingest_total (valid : validate catalog = .ok ()) (steady : Steady load records)
    (seals : Seals) (peaceful : Peaceful records catalog) :
    ∃ result committed, ingest load nonces report records catalog = .ok (result, committed) := by
  obtain ⟨result, accepted⟩ : ∃ result, scan load nonces report records catalog = .ok result :=
    scan_total steady seals peaceful.among
  have scanning := scan_scanning steady accepted
  have commits : ∃ committed, commitAlone catalog result.incoming = .ok committed := by
    unfold commitAlone
    split
    · exact ⟨catalog, rfl⟩
    · obtain ⟨merged, succeeded⟩ :=
        (mergeCatalogs_ok_iff_repoOf? valid scanning.wellFormed).mpr (by
          intro session member repo found
          obtain ⟨record, present, sameKey, ours, fresh⟩ := scanning.repo member
          have agreed := peaceful.archive record present fresh repo (sameKey ▸ found)
          exact Option.some.inj (agreed.symm.trans ours))
      exact ⟨_, updateCatalog_ok_iff.mpr ⟨merged, succeeded, rfl⟩⟩
  obtain ⟨committed, stored⟩ := commits
  exact ⟨result, committed, by rw [ingest, accepted, ok_bind, stored, ok_bind]⟩

theorem ingest_sent (steady : Steady load records)
    (succeeded : ingest load nonces report records catalog = .ok (result, committed))
    {record : SourceRecord} (member : record ∈ records) (ready : record.state = .ready)
    (fresh : ¬ Archives catalog.sessions record.archiveKey) :
    Submitted load nonces report records catalog record := by
  have scanning := scan_scanning steady (ingest_ok succeeded).1
  have known := (scanning.known _).mp (scanning.covered record member ready)
  obtain ⟨repoKey, transcript, unmoved⟩ := steady record member ready
  obtain ⟨object, named⟩ := contentHash_objectKey unmoved.contentHash
  exact ⟨result, committed, succeeded, known.resolve_left fresh, object, named,
    scanning.mem_uploads.mpr ⟨record, member, ready, fresh, named⟩⟩

theorem peaceful_of_ingest (valid : validate catalog = .ok ()) (steady : Steady load records)
    (ready : ∀ record ∈ records, record.state = .ready)
    (hashed : ∀ left ∈ records, ∀ right ∈ records, left.contentHash = right.contentHash →
      left.repoKey = right.repoKey)
    (succeeded : ingest load nonces report records catalog = .ok (result, committed)) :
    Peaceful records catalog := by
  obtain ⟨accepted, commits⟩ := ingest_ok succeeded
  have scanning := scan_scanning steady accepted
  -- An unarchived record has its session in the incoming catalog, under its repository.
  have submitted : ∀ record ∈ records, ¬ Archives catalog.sessions record.archiveKey →
      ∃ session ∈ result.incoming.sessions, session.key = record.key ∧
        record.repoKey = some session.repoKey := by
    intro record member fresh
    have known := (scanning.known _).mp (scanning.covered record member (ready record member))
    obtain ⟨session, present, sameKey, revision, included, hash⟩ :=
      archives_iff.mp (known.resolve_left fresh)
    obtain ⟨origin, originIn, _, _, ours, described, _⟩ :=
      scanning.origin session present revision included
    have sameHash : record.contentHash = origin.contentHash := by
      rw [SourceRecord.contentHash, SourceRecord.contentHash, ← described]
      exact hash.symm
    exact ⟨session, present, sameKey, (hashed record member origin originIn sameHash).trans ours⟩
  refine ⟨?_, ?_⟩
  · intro left leftIn right rightIn leftFresh rightFresh sameKey
    obtain ⟨one, oneIn, oneKey, oneRepo⟩ := submitted left leftIn leftFresh
    obtain ⟨other, otherIn, otherKey, otherRepo⟩ := submitted right rightIn rightFresh
    have same : one = other :=
      List.inj_on_of_nodup_map (keys_nodup_of_sorted scanning.wellFormed.sorted) oneIn otherIn
        (oneKey.trans (sameKey.trans otherKey.symm))
    rw [oneRepo, otherRepo, same]
  · intro record member fresh repo found
    obtain ⟨session, present, sameKey, ours⟩ := submitted record member fresh
    unfold commitAlone at commits
    split at commits
    · rename_i empty
      rw [List.isEmpty_iff.mp empty] at present
      cases present
    · obtain ⟨merged, succeeded, _⟩ := updateCatalog_ok_iff.mp commits
      have agreed := (mergeCatalogs_ok_iff_repoOf? valid scanning.wellFormed).mp
        ⟨merged, succeeded⟩ session present repo (sameKey ▸ found)
      rw [ours, agreed]

/-- The records of sessions with one repository are sent exactly when there is no
such record to send, or no session that would be sent is torn between two. -/
theorem ingest_isolated_iff (valid : validate catalog = .ok ()) (steady : Steady load records)
    (ready : ∀ record ∈ records, record.state = .ready) (seals : Seals)
    (hashed : ∀ left ∈ records, ∀ right ∈ records, left.contentHash = right.contentHash →
      left.repoKey = right.repoKey) :
    (∀ record ∈ records, OneRepo records catalog record →
        ¬ Archives catalog.sessions record.archiveKey →
        Submitted load nonces report records catalog record) ↔
      (∀ record ∈ records, OneRepo records catalog record →
        Archives catalog.sessions record.archiveKey) ∨ Peaceful records catalog := by
  constructor
  · intro isolated
    by_cases idle : ∀ record ∈ records, OneRepo records catalog record →
        Archives catalog.sessions record.archiveKey
    · exact .inl idle
    · push Not at idle
      obtain ⟨record, member, settled, fresh⟩ := idle
      obtain ⟨result, committed, succeeded, _⟩ := isolated record member settled fresh
      exact .inr (peaceful_of_ingest valid steady ready hashed succeeded)
  · intro either record member settled fresh
    rcases either with idle | peaceful
    · exact absurd (idle record member settled) fresh
    · obtain ⟨result, committed, succeeded⟩ : ∃ result committed,
          ingest load nonces report records catalog = .ok (result, committed) :=
        ingest_total valid steady seals peaceful
      exact ingest_sent steady succeeded member (ready record member) fresh

end Ingest

section Example

attribute [local instance] HarnessNames.snakeCase DocumentCodec.padded

def tornRecords : List SourceRecord :=
  [textRecord "repo1" "aaa" 1, textRecord "repo2" "abb" 2, textRecord "repo1" "bcc" 3]

theorem tornRecords_steady : Steady loadText tornRecords :=
  textRecords_steady [("repo1", "aaa", 1), ("repo2", "abb", 2), ("repo1", "bcc", 3)] (by decide)

theorem padded_seals : Seals := fun _ _ bytes => ⟨bytes, rfl⟩

theorem ingest_isolated_iff_torn :
    (∀ record ∈ tornRecords, OneRepo tornRecords Catalog.empty record →
        ¬ Archives Catalog.empty.sessions record.archiveKey →
        Submitted loadText (fun _ => []) .default tornRecords Catalog.empty record) ↔
      (∀ record ∈ tornRecords, OneRepo tornRecords Catalog.empty record →
        Archives Catalog.empty.sessions record.archiveKey) ∨
      Peaceful tornRecords Catalog.empty :=
  ingest_isolated_iff (by decide) tornRecords_steady (by decide) padded_seals (by decide)

theorem ingest_torn_fails :
    ∃ error, ingest loadText (fun _ => []) .default tornRecords Catalog.empty = .error error := by
  have failed : (ingest loadText (fun _ => []) .default tornRecords
      Catalog.empty).toOption = none := by decide +kernel
  cases run : ingest loadText (fun _ => []) .default tornRecords Catalog.empty with
  | error error => exact ⟨error, rfl⟩
  | ok _ => simp [run, Except.toOption] at failed

/-- Session `b` is not archived because session `a` is torn. -/
theorem ingest_not_isolated : Steady loadText tornRecords ∧
    (∀ record ∈ tornRecords, record.state = .ready) ∧
    ∃ record ∈ tornRecords, OneRepo tornRecords Catalog.empty record ∧
      ¬ Archives Catalog.empty.sessions record.archiveKey ∧
      ¬ Submitted loadText (fun _ => []) .default tornRecords Catalog.empty record := by
  refine ⟨tornRecords_steady, by decide, textRecord "repo1" "bcc" 3, by decide,
    ⟨by decide, by simp [Catalog.empty]⟩, by simp [Archives, revisionsOf, Catalog.empty], ?_⟩
  intro given
  obtain ⟨result, committed, succeeded, _⟩ := given
  obtain ⟨error, failed⟩ := ingest_torn_fails
  rw [failed] at succeeded
  cases succeeded

end Example

end AgentTranscript
