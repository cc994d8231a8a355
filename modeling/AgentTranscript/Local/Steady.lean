import AgentTranscript.Local.Settled

/-! A diff that is not disturbed leaves nothing for the next one. -/

set_option autoImplicit false

namespace AgentTranscript

section Walk

/-- What the walk of a directory yields: one row for each file, by its path. -/
structure Walked (rows : List TreeRow) : Prop where
  distinct : (rows.map (·.rel)).Nodup
  proper : ∀ row ∈ rows, ProperRel row.rel

variable [HarnessNames] [DocumentCodec] {machine : Machine} {site : Site}

omit [HarnessNames] [DocumentCodec] in
theorem Walked.sorted {root : String} (walked : Walked (machine.listing root)) :
    Walked (walkTree machine root) := by
  have same : (walkTree machine root).Perm (machine.listing root) := List.perm_insertionSort _ _
  exact ⟨(same.map _).nodup_iff.mpr walked.distinct,
    fun row member => walked.proper row (same.mem_iff.mp member)⟩

omit [HarnessNames] in
theorem Walked.foundFiles (walked : Walked (machine.listing site.path)) :
    ((foundFiles machine site).map (·.source)).Nodup := by
  have sorted := walked.sorted
  unfold AgentTranscript.foundFiles
  rw [List.map_map]
  apply List.Nodup.map_on
  · intro row member other among same
    have inside := (List.mem_filter.mp member).1
    have within := (List.mem_filter.mp among).1
    exact List.inj_on_of_nodup_map sorted.distinct inside within
      (joinRel_inj (sorted.proper row inside) (sorted.proper other within) same)
  · exact (sorted.distinct.of_map _).filter _

omit [HarnessNames] [DocumentCodec] in
theorem mem_sessionDirs {kind : Kind} {rows : List TreeRow} {dir : String}
    (member : dir ∈ sessionDirs kind rows) :
    ∃ row ∈ rows, ∃ name, rsplitOnce row.rel '/' = some (dir, name) := by
  unfold sessionDirs at member
  rw [List.mem_insertionSort, List.mem_dedup, List.mem_filterMap] at member
  obtain ⟨row, among, marked⟩ := member
  obtain ⟨parts, split, shape⟩ := Option.bind_eq_some_iff.mp marked
  split at shape
  · cases shape
    exact ⟨row, among, parts.2, split⟩
  · cases shape

omit [HarnessNames] [DocumentCodec] in
theorem Walked.sessionDirs {rows : List TreeRow} (walked : Walked rows) (kind : Kind) :
    ∀ dir ∈ AgentTranscript.sessionDirs kind rows, ProperRel dir := by
  intro dir member
  obtain ⟨row, among, name, split⟩ := mem_sessionDirs member
  exact rsplitOnce_proper (walked.proper row among) split

omit [HarnessNames] in
theorem Walked.foundDirs (walked : Walked (machine.listing site.path)) :
    ((foundDirs machine site).map (·.source)).Nodup := by
  have proper := walked.sorted.sessionDirs site.kind
  unfold AgentTranscript.foundDirs
  rw [List.map_map]
  apply List.Nodup.map_on
  · intro dir member other among same
    exact joinRel_inj (proper dir member) (proper other among) same
  · exact (List.perm_insertionSort _ _).nodup_iff.mpr (List.nodup_dedup _)

theorem Walked.found (walked : Walked (machine.listing site.path)) (kind : site.kind ≠ .db) :
    ((site.found machine).map (·.source)).Nodup := by
  unfold Site.found
  cases shape : site.kind with
  | files => exact walked.foundFiles
  | sessionDirs => exact walked.foundDirs
  | grokBotDirs => exact walked.foundDirs
  | db => exact absurd shape kind

end Walk

section First

variable [HarnessNames] [DocumentCodec] {machine : Machine} {store : LocalStore} {site : Site}

omit [DocumentCodec] in
theorem upToDate_iff {harness : HarnessId} {entry : Found} : store.upToDate harness entry = true ↔
    ∃ record, store.recordOf harness entry.source = some record ∧
      record.fingerprint = entry.fingerprint := by
  unfold LocalStore.upToDate
  rw [Option.any_eq_true]
  simp only [decide_eq_true_eq]

/-- After a read that did not fail transiently, a source has a record at its fingerprint. -/
theorem reconsider_listed {harness : HarnessId} {entry : Found}
    (read : store.upToDate harness entry = false → ¬ Transient machine harness entry.source) :
    (store.reconsider machine harness entry.source entry.fingerprint entry.updatedAt).upToDate
      harness entry = true := by
  rw [reconsider_eq]
  split
  · assumption
  · rename_i stale
    have lasting := read (by simpa using stale)
    rw [upToDate_iff, recordOf_reload, if_pos ⟨rfl, rfl⟩]
    cases reading : store.reading machine harness entry.source entry.fingerprint
        entry.updatedAt with
    | none => exact absurd (reading_eq_none.mp reading) lasting
    | some record => exact ⟨record, rfl, (reading_fields reading).2.2.1⟩

theorem consider_listed {harness : HarnessId} {found : List Found}
    (distinct : (found.map (·.source)).Nodup)
    (read : ∀ load ∈ store.foundLoads machine harness found,
      ¬ Transient machine load.1 load.2) :
    ∀ entry ∈ found, (store.consider machine harness found).upToDate harness entry = true := by
  induction found generalizing store with
  | nil =>
      intro entry member
      cases member
  | cons first rest ih =>
      obtain ⟨fresh, others⟩ := List.nodup_cons.mp distinct
      have listed : (store.reconsider machine harness first.source first.fingerprint
          first.updatedAt).upToDate harness first = true := by
        apply reconsider_listed
        intro stale
        apply read (harness, first.source)
        rw [LocalStore.foundLoads, if_neg (by simp [stale])]
        exact List.mem_append_left _ (List.mem_singleton_self _)
      intro entry member
      rw [consider_cons]
      rcases List.mem_cons.mp member with rfl | later
      · refine (upToDate_congr ?_).trans listed
        apply recordOf_consider
        refine .inr fun reads => ?_
        obtain ⟨-, other, among, same, -⟩ := mem_foundLoads.mp reads
        exact fresh (List.mem_map.mpr ⟨other, among, same⟩)
      · apply ih others _ entry later
        intro load among
        apply read
        rw [LocalStore.foundLoads]
        exact List.mem_append_right _ among

theorem scanSite_listed (kind : site.kind ≠ .db)
    (distinct : ((site.found machine).map (·.source)).Nodup)
    (read : ∀ load ∈ store.siteLoads machine site, ¬ Transient machine load.1 load.2) :
    ∀ entry ∈ site.found machine,
      (store.scanSite machine site).upToDate site.harness entry = true := by
  intro entry member
  rw [LocalStore.siteLoads, if_pos (scans_files kind)] at read
  refine (upToDate_congr ?_).trans (consider_listed distinct read entry member)
  rw [scanSite_files kind]
  unfold LocalStore.scanFound
  dsimp only
  rw [recordOf_dropUnseen, if_neg]
  · rfl
  · intro dropped
    exact dropped.2.2 (List.mem_map.mpr ⟨entry, member, rfl⟩)

theorem scanSite_stored (path : String)
    (stored : store.state.dbFingerprints.get? path = some (dbFingerprint machine path)) :
    (store.scanSite machine site).state.dbFingerprints.get? path =
      some (dbFingerprint machine path) := by
  by_cases kind : site.kind = .db
  · rcases scanSite_db machine store kind with
      ⟨-, same⟩ | ⟨-, ⟨-, same⟩ | ⟨-, -, message, same⟩⟩
    · rw [same]
      apply enumerated_stored
      rwa [scanFound_dbFingerprints]
    · rwa [same]
    · rwa [same]
  · rwa [scanSite_files kind, scanFound_dbFingerprints]

/-- The scan of a site settles it. -/
theorem scanSite_settles (distinct : site.kind ≠ .db → ((site.found machine).map (·.source)).Nodup)
    (read : ∀ load ∈ store.siteLoads machine site, ¬ Transient machine load.1 load.2)
    (enumerates : site.kind = .db →
      store.state.dbFingerprints.get? site.path ≠ some (dbFingerprint machine site.path) →
      (site.discover machine).isOk = true) :
    SiteSettled machine (store.scanSite machine site) site where
  listed kind := scanSite_listed kind (distinct kind) read
  seen := by
    intro kind harness source covers has
    exact (((siteScan machine store site).scanned (scans_files kind) harness source covers).mp
      has).1
  stored := by
    intro kind
    rcases scanSite_db machine store kind with
      ⟨-, same⟩ | ⟨-, ⟨stored, same⟩ | ⟨moved, failed, -⟩⟩
    · rw [same, LocalStore.enumerated, SortedMap.get?_insert, if_pos rfl]
    · rwa [same]
    · rw [enumerates kind moved] at failed
      cases failed

/-- A settled site stays settled while other sites are scanned. -/
theorem SiteSettled.scanSite {other : Site} (settled : SiteSettled machine store site)
    (apart : ∀ harness source, site.Covers harness source → ¬ other.Covers harness source) :
    SiteSettled machine (store.scanSite machine other) site where
  listed := by
    intro kind entry member
    have below : site.Covers site.harness entry.source :=
      ⟨rfl, (owns_enumerated (mem_enumerated member)).2⟩
    exact (upToDate_congr (recordOf_scanSite_apart (apart _ _ below))).trans
      (settled.listed kind entry member)
  seen := by
    intro kind harness source covers has
    apply settled.seen kind harness source covers
    rwa [LocalStore.Has, recordOf_scanSite_apart (apart _ _ covers)] at has
  stored kind := scanSite_stored site.path (settled.stored kind)

theorem SiteSettled.scanSites {present : List Site} (settled : SiteSettled machine store site)
    (apart : ∀ other ∈ present, ∀ harness source, site.Covers harness source →
      ¬ other.Covers harness source) :
    SiteSettled machine (store.scanSites machine present) site := by
  induction present generalizing store with
  | nil => exact settled
  | cons other rest ih =>
      exact ih (settled.scanSite (apart other List.mem_cons_self))
        fun later member => apart later (List.mem_cons_of_mem other member)

theorem scanSites_settles {present : List Site} (apart : Apart present)
    (distinct : ∀ site ∈ present, site.kind ≠ .db →
      ((site.found machine).map (·.source)).Nodup)
    (read : ∀ load ∈ store.sitesLoads machine present, ¬ Transient machine load.1 load.2)
    (enumerated : store.failedEnumerations machine present = []) :
    ∀ site ∈ present, SiteSettled machine (store.scanSites machine present) site := by
  induction present generalizing store with
  | nil =>
      intro site member
      cases member
  | cons first rest ih =>
      rw [LocalStore.failedEnumerations, List.append_eq_nil_iff] at enumerated
      intro site member
      rcases List.mem_cons.mp member with rfl | later
      · have settled : SiteSettled machine (store.scanSite machine site) site := by
          apply scanSite_settles (distinct site List.mem_cons_self)
          · intro load among
            exact read load (List.mem_append_left _ among)
          · intro kind moved
            by_contra failed
            rw [if_pos ⟨kind, moved, by simpa using failed⟩] at enumerated
            cases enumerated.1
        apply SiteSettled.scanSites settled
        intro other among harness source covers
        have alone : Apart ([] ++ site :: rest) := apart
        exact alone.uncovered covers other among
      · apply ih (List.pairwise_cons.mp apart).2 _ _ enumerated.2 site later
        · intro other among
          exact distinct other (List.mem_cons_of_mem first among)
        · intro load among
          exact read load (List.mem_append_right _ among)

end First

section Last

variable [HarnessNames] [DocumentCodec] {machine : Machine} {store : LocalStore} {site : Site}
  {harness : HarnessId} {source : String}

omit [DocumentCodec] in
theorem recordOf_dropUnowned {sites : List Site} (owned : ∃ site ∈ sites,
    site.harness = harness ∧ site.owns source = true) :
    (store.dropUnowned sites).recordOf harness source = store.recordOf harness source := by
  obtain ⟨site, present, rfl, owns⟩ := owned
  have kept : (sites.any fun other => HarnessNames.asStr other.harness =
      HarnessNames.asStr site.harness && other.owns source) = true :=
    List.any_eq_true.mpr ⟨site, present, by simp [owns]⟩
  unfold LocalStore.recordOf LocalStore.dropUnowned
  rw [retain_sources]
  simp only [splitOnce_sourceKey, kept]
  cases store.state.sources.get? (sourceKey site.harness source) <;> rfl

theorem SiteSettled.dropUnowned (settled : SiteSettled machine store site)
    (present : site ∈ sites machine) :
    SiteSettled machine (store.dropUnowned (sites machine)) site where
  listed := by
    intro kind entry member
    exact (upToDate_congr (recordOf_dropUnowned ⟨site, present, rfl,
      (owns_enumerated (mem_enumerated member)).1⟩)).trans (settled.listed kind entry member)
  seen := by
    intro kind harness source covers has
    exact settled.seen kind harness source covers (has_dropUnowned.mp has).1
  stored := by
    intro kind
    unfold LocalStore.dropUnowned
    rw [retain_dbFingerprints]
    exact settled.stored kind

/-- What a retry leaves of a store: every record at its fingerprint. -/
structure Retried (before after : LocalStore) : Prop where
  fingerprints : ∀ harness source, (after.recordOf harness source).map (·.fingerprint) =
    (before.recordOf harness source).map (·.fingerprint)
  dbFingerprints : after.state.dbFingerprints = before.state.dbFingerprints

theorem resolvePendingKey_retried (machine : Machine) (keyed : Keyed store) (key : String) :
    Retried store (store.resolvePendingKey machine key) := by
  unfold LocalStore.resolvePendingKey
  split
  · exact ⟨fun _ _ => rfl, rfl⟩
  · rename_i record found
    have kept := resolveRepo_kept machine store record.info.cwd
    have records : ∀ harness source, (store.resolveRepo machine record.info.cwd).2.recordOf harness
        source = store.recordOf harness source := by
      intro harness source
      rw [LocalStore.recordOf, kept.1]
      rfl
    dsimp only
    split
    · refine ⟨?_, (reload_spec machine _ _ _ _ _).dbFingerprints.trans kept.2⟩
      intro harness source
      rw [recordOf_reload]
      split
      · rename_i here
        obtain ⟨rfl, rfl⟩ := here
        have place : key = sourceKey record.harness record.source :=
          keyed (key, record) (SortedMap.get?_eq_some_iff.mp found)
        have current : store.recordOf record.harness record.source = some record := by
          rw [LocalStore.recordOf, ← place, found]
        rw [records, current]
        cases reading : LocalStore.reading machine _ record.harness record.source
            record.fingerprint record.freshness.updatedAt with
        | none => rfl
        | some read => exact congrArg some (reading_fields reading).2.2.1
      · rw [records]
    · exact ⟨fun harness source => by rw [records], kept.2⟩

theorem resolvePending_retried (machine : Machine) (keyed : Keyed store) :
    Retried store (store.resolvePending machine) := by
  apply resolvePending_invariant keyed (Retried store) ⟨fun _ _ => rfl, rfl⟩
  intro state key _ preserved _ _ retried
  have next := resolvePendingKey_retried machine preserved key
  exact ⟨fun harness source => (next.fingerprints harness source).trans
    (retried.fingerprints harness source), next.dbFingerprints.trans retried.dbFingerprints⟩

theorem SiteSettled.resolvePending (settled : SiteSettled machine store site)
    (keyed : Keyed store) : SiteSettled machine (store.resolvePending machine) site where
  listed := by
    intro kind entry member
    obtain ⟨record, found, current⟩ := upToDate_iff.mp (settled.listed kind entry member)
    have same := (resolvePending_retried machine keyed).fingerprints site.harness
      entry.source
    rw [found] at same
    obtain ⟨next, after, fingerprint⟩ := Option.map_eq_some_iff.mp same
    exact upToDate_iff.mpr ⟨next, after, fingerprint.trans current⟩
  seen := by
    intro kind harness source covers has
    exact settled.seen kind harness source covers
      (((resolvePending_kept keyed).2 harness source).mp has)
  stored := by
    intro kind
    rw [(resolvePending_retried machine keyed).dbFingerprints]
    exact settled.stored kind

/-- A record that a read leaves pending waits. -/
theorem reading_waits {fingerprint : String} {updatedAt : Option DateTime}
    {record : SourceRecord} (agree : OriginsAgree machine store)
    (read : store.reading machine harness source fingerprint updatedAt = some record)
    (pending : record.state = .pending) : record.Waits machine := by
  unfold LocalStore.reading at read
  split at read
  · rename_i transcript loaded
    cases read
    intro repoKey resolves
    have origin : store.origin machine (Info.of transcript.metadata).cwd = .key repoKey :=
      (agree.origin _).trans resolves
    unfold loadedRecord at pending
    rw [origin] at pending
    dsimp only at pending
    split at pending <;> cases pending
  · cases read
  · cases read
    cases pending

/-- After the retry of a key its record, if it is still pending, waits. -/
theorem resolvePendingKey_pending {key : String} (keyed : Keyed store)
    (agree : OriginsAgree machine store)
    (read : ∀ load ∈ store.retryLoads machine key, ¬ Transient machine load.1 load.2)
    {record : SourceRecord}
    (found : (store.resolvePendingKey machine key).state.sources.get? key = some record)
    (pending : record.state = .pending) : record.Waits machine := by
  unfold LocalStore.retryLoads at read
  unfold LocalStore.resolvePendingKey at found
  cases before : store.state.sources.get? key with
  | none =>
      rw [before] at found
      cases before.symm.trans found
  | some old =>
      rw [before] at found read
      have kept := (resolveRepo_kept machine store old.info.cwd).1
      unfold LocalStore.origin at read
      dsimp only at found read
      have origin := agree.origin old.info.cwd
      unfold LocalStore.origin at origin
      cases repo : (store.resolveRepo machine old.info.cwd).1 with
      | key repoKey =>
          simp only [repo] at found read
          have lasting := read (old.harness, old.source) (List.mem_singleton_self _)
          have place : key = sourceKey old.harness old.source :=
            keyed (key, old) (SortedMap.get?_eq_some_iff.mp before)
          rw [(reload_spec machine _ _ _ _ _).sources] at found
          cases reading : LocalStore.reading machine _ old.harness old.source old.fingerprint
              old.freshness.updatedAt with
          | none => exact absurd (reading_eq_none.mp reading) lasting
          | some next =>
              rw [reading, Option.elim_some, place, SortedMap.get?_insert, if_pos rfl] at found
              cases found
              exact reading_waits (agree.same (resolveRepo_same machine store _)) reading pending
      | missingCwd =>
          simp only [repo, kept, before, Option.some.injEq] at found
          intro repoKey resolves
          rw [← found, ← origin, repo] at resolves
          cases resolves
      | unresolved reason =>
          simp only [repo, kept, before, Option.some.injEq] at found
          intro repoKey resolves
          rw [← found, ← origin, repo] at resolves
          cases resolves

theorem resolvePendingKey_same (machine : Machine) (store : LocalStore) (key : String) :
    SameOrigins machine store (store.resolvePendingKey machine key) := by
  unfold LocalStore.resolvePendingKey
  split
  · exact .refl machine store
  · rename_i record found
    have resolved := resolveRepo_same machine store record.info.cwd
    dsimp only
    split
    · exact resolved.trans (reload_spec machine _ _ _ _ _).origins
    · exact resolved

theorem resolvePending_pending {keys : List String} (keyed : Keyed store) (distinct : keys.Nodup)
    (agree : OriginsAgree machine store)
    (read : ∀ load ∈ store.pendingLoads machine keys, ¬ Transient machine load.1 load.2)
    (others : ∀ key record, key ∉ keys → store.state.sources.get? key = some record →
      record.state = .pending → record.Waits machine) :
    ∀ key record, (keys.foldl (fun store key => store.resolvePendingKey machine key)
        store).state.sources.get? key = some record →
      record.state = .pending → record.Waits machine := by
  induction keys generalizing store with
  | nil =>
      intro key record
      exact others key record List.not_mem_nil
  | cons first rest ih =>
      obtain ⟨fresh, later⟩ := List.nodup_cons.mp distinct
      rw [LocalStore.pendingLoads] at read
      apply ih (resolvePendingKey_kept machine keyed first).1 later
        (agree.same (resolvePendingKey_same machine store first))
      · intro load among
        exact read load (List.mem_append_right _ among)
      · intro key record absent found pending
        by_cases same : key = first
        · subst same
          apply resolvePendingKey_pending keyed agree _ found pending
          intro load among
          exact read load (List.mem_append_left _ among)
        · rw [resolvePendingKey_other machine keyed same] at found
          exact others key record (by simp [same, absent]) found pending

theorem scanned_keyed (keyed : Keyed store) : Keyed (store.scanned machine) := by
  have start : Keyed store.opened := keyed
  exact start.scanSites.retain _ _

theorem DiffChange.same {next : LocalStore} (change : DiffChange machine store next) :
    SameOrigins machine store next := by
  cases change with
  | read => exact (reload_spec machine store _ _ _ _).origins
  | dropUnseen => exact .of_repos (retain_repos _ _ _)
  | enumerated => exact .of_repos rfl
  | failed => exact .of_repos rfl
  | dropUnowned => exact .of_repos (retain_repos _ _ _)
  | resolved cwd => exact resolveRepo_same machine store cwd
  | retry => exact (reload_spec machine store _ _ _ _).origins

theorem scanned_same (machine : Machine) (store : LocalStore) :
    SameOrigins machine store (store.scanned machine) := by
  have changes : Relation.ReflTransGen (DiffChange machine) store.opened (store.scanned machine) :=
    (scanSites_changes fun _ member => member).tail .dropUnowned
  generalize store.scanned machine = final at changes ⊢
  induction changes with
  | refl => exact .of_repos rfl
  | tail _ change ih => exact ih.trans change.same

/-- A diff settles the store when no read fails transiently and no enumeration fails. -/
theorem diff_settled (keyed : Keyed store) (apart : Apart (sites machine))
    (distinct : ∀ site ∈ sites machine, site.kind ≠ .db →
      ((site.found machine).map (·.source)).Nodup)
    (agree : OriginsAgree machine store)
    (read : ∀ load ∈ store.diffLoads machine, ¬ Transient machine load.1 load.2)
    (enumerated : store.opened.failedEnumerations machine (sites machine) = []) :
    AtRest machine (store.diff machine) where
  keyed := keyed.diff
  site := by
    intro site present
    have scanned := scanSites_settles apart distinct
      (fun load among => read load (List.mem_append_left _ among)) enumerated site present
    exact (scanned.dropUnowned present).resolvePending (scanned_keyed keyed)
  owned := by
    intro harness source has
    exact ((has_diff keyed).mp has).2
  waits := by
    rw [diff_eq]
    apply resolvePending_pending (scanned_keyed keyed) _ (agree.same (scanned_same machine store))
    · intro load among
      exact read load (List.mem_append_right _ among)
    · intro key record absent found pending
      exact absurd (List.mem_map.mpr ⟨(key, record), List.mem_filter.mpr
        ⟨SortedMap.get?_eq_some_iff.mp found, by simpa using pending⟩, rfl⟩) absent
    · exact pendingKeys_nodup _

/-- After a diff from a reachable state in which no read failed transiently and every
database could be enumerated, the next one reads no body, reports nothing and changes
no record, as long as what is listed and what `git` answers stays as it is. -/
theorem diff_steady {world : StoreWorld} (run : StoreRun world) {machine later : Machine}
    (agree : OriginsAgree machine world.store) (apart : Apart (sites machine))
    (walked : ∀ site ∈ sites machine, Walked (machine.listing site.path))
    (read : ∀ load ∈ world.store.diffLoads machine, ¬ Transient machine load.1 load.2)
    (enumerated : world.store.opened.failedEnumerations machine (sites machine) = [])
    (unchanged : Unchanged machine later) :
    (world.store.diff machine).diffLoads later = [] ∧
      ((world.store.diff machine).diff later).report = .default ∧
      ((world.store.diff machine).diff later).state.sources =
        (world.store.diff machine).state.sources := by
  have keyed := storeRun_keyed run
  have settled := diff_settled keyed apart (fun site present => (walked site present).found) agree
    read enumerated
  apply settled.diff _ unchanged
  have scanned := scanned_same machine world.store
  refine agree.same (scanned.trans ?_)
  exact resolvePending_invariant (scanned_keyed keyed)
    (SameOrigins machine (world.store.scanned machine)) (.refl _ _)
    fun state key _ _ _ _ same => same.trans (resolvePendingKey_same machine state key)

end Last

section One

attribute [local instance] HarnessNames.snakeCase DocumentCodec.padded

/-- Five minutes later the session that was read has nothing new. -/
theorem oneSession_steady :
    ((LocalStore.start.diff (oneSession 1 "/a")).diff
        { oneSession 1 "/a" with now := repoRetry }).report = .default := by
  have run : StoreRun .start := .refl
  have agree : OriginsAgree (oneSession 1 "/a") StoreWorld.start.store := fun _ => rfl
  have apart : Apart (sites (oneSession 1 "/a")) := by decide +kernel
  have walked : ∀ site ∈ sites (oneSession 1 "/a"),
      Walked ((oneSession 1 "/a").listing site.path) := by
    intro site _
    refine ⟨List.nodup_singleton _, ?_⟩
    intro row member
    obtain rfl := List.mem_singleton.mp member
    unfold ProperRel
    decide
  have read : ∀ load ∈ StoreWorld.start.store.diffLoads (oneSession 1 "/a"),
      ¬ Transient (oneSession 1 "/a") load.1 load.2 :=
    fun _ _ => oneSession_reads
  have enumerated : StoreWorld.start.store.opened.failedEnumerations (oneSession 1 "/a")
      (sites (oneSession 1 "/a")) = [] := by
    decide +kernel
  have unchanged : Unchanged (oneSession 1 "/a") { oneSession 1 "/a" with now := repoRetry } :=
    ⟨rfl, rfl, rfl, rfl, rfl, rfl, by decide⟩
  exact (diff_steady run agree apart walked read enumerated unchanged).2.1

end One

end AgentTranscript
