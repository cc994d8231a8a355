import AgentTranscript.Local.Steady
import AgentTranscript.Views.Sessions

/-!
An incremental diff against a full one. Where fingerprints can be trusted, the records
after a run of diffs are those of the last look at the machine, whatever the earlier
ones were.
-/

set_option autoImplicit false

namespace AgentTranscript

section Sites

variable [HarnessNames] [DocumentCodec] {machine : Machine} {store : LocalStore}
  {site other : Site} {present : List Site}

/-- Every source that a site lists has a record at its fingerprint, and no other source below
the site has one. -/
structure SiteCurrent (machine : Machine) (store : LocalStore) (site : Site) : Prop where
  listed : ∀ entry ∈ site.found machine, store.upToDate site.harness entry = true
  seen : ∀ harness source, site.Covers harness source → store.Has harness source →
    source ∈ site.enumerated machine

theorem SiteCurrent.of_records {after : LocalStore} (current : SiteCurrent machine store site)
    (same : ∀ harness source, site.Covers harness source →
      after.recordOf harness source = store.recordOf harness source) :
    SiteCurrent machine after site where
  listed := by
    intro entry member
    have below : site.Covers site.harness entry.source :=
      ⟨rfl, (owns_enumerated (mem_enumerated member)).2⟩
    exact (upToDate_congr (same _ _ below)).trans (current.listed entry member)
  seen := by
    intro harness source covers has
    apply current.seen harness source covers
    rwa [LocalStore.Has, same harness source covers] at has

/-- The scan of a site brings it up to date. -/
theorem scanSite_current (distinct : ((site.found machine).map (·.source)).Nodup)
    (scans : store.scans machine site = true)
    (read : ∀ load ∈ store.siteLoads machine site, ¬ Transient machine load.1 load.2) :
    SiteCurrent machine (store.scanSite machine site) site where
  listed := by
    intro entry member
    rw [LocalStore.siteLoads, if_pos scans] at read
    refine (upToDate_congr ?_).trans (consider_listed distinct read entry member)
    obtain ⟨-, same⟩ | ⟨idle, -⟩ := scanSite_cases machine store site
    · rw [LocalStore.recordOf, same]
      unfold LocalStore.scanFound
      dsimp only
      change LocalStore.recordOf _ site.harness entry.source = _
      rw [recordOf_dropUnseen, if_neg]
      · rfl
      · intro dropped
        exact dropped.2.2 (List.mem_map.mpr ⟨entry, member, rfl⟩)
    · rw [scans] at idle
      cases idle
  seen := by
    intro harness source covers has
    exact (((siteScan machine store site).scanned scans harness source covers).mp has).1

/-- What is to be scanned is apart from a site that is not scanned, and up to date. -/
def Prepared (machine : Machine) (store : LocalStore) (present : List Site) : Prop :=
  ∀ site ∈ present, site.kind = .db →
    store.state.dbFingerprints.get? site.path = some (dbFingerprint machine site.path) →
      SiteCurrent machine store site

theorem Prepared.rest {rest : List Site} (prepared : Prepared machine store (site :: rest))
    (apart : Apart (site :: rest)) (distinct : DistinctDbs (site :: rest)) :
    Prepared machine (store.scanSite machine site) rest := by
  intro later member db stored
  have paths : site.kind = .db → later.path ≠ site.path := by
    intro kind same
    exact (List.pairwise_cons.mp distinct).1 later member kind db same.symm
  rw [(siteScan machine store site).dbFingerprints later.path paths] at stored
  refine (prepared later (List.mem_cons_of_mem site member) db stored).of_records ?_
  intro harness source covers
  apply recordOf_scanSite_apart
  obtain ⟨before, after, shape⟩ := List.append_of_mem member
  have among : Apart ((site :: before) ++ later :: after) := by
    rw [List.cons_append, ← shape]
    exact apart
  exact among.uncovered covers site (by simp)

theorem recordOf_scanSites_apart {harness : HarnessId} {source : String}
    (uncovered : ∀ site ∈ present, ¬ site.Covers harness source) :
    (store.scanSites machine present).recordOf harness source = store.recordOf harness source := by
  induction present generalizing store with
  | nil => rfl
  | cons first rest ih =>
      have later := @ih (store.scanSite machine first)
        fun other member => uncovered other (List.mem_cons_of_mem first member)
      exact later.trans (recordOf_scanSite_apart (uncovered first List.mem_cons_self))

theorem scanSites_current (apart : Apart present) (distinct : DistinctDbs present)
    (once : ∀ site ∈ present, ((site.found machine).map (·.source)).Nodup)
    (prepared : Prepared machine store present)
    (read : ∀ load ∈ store.sitesLoads machine present, ¬ Transient machine load.1 load.2)
    (enumerated : store.failedEnumerations machine present = []) :
    ∀ site ∈ present, SiteCurrent machine (store.scanSites machine present) site := by
  induction present generalizing store with
  | nil =>
      intro site member
      cases member
  | cons first rest ih =>
      rw [LocalStore.failedEnumerations, List.append_eq_nil_iff] at enumerated
      have settled : SiteCurrent machine (store.scanSite machine first) first := by
        cases scans : store.scans machine first with
        | true =>
            apply scanSite_current (once first List.mem_cons_self) scans
            intro load among
            exact read load (List.mem_append_left _ among)
        | false =>
            have db : first.kind = .db := by
              by_contra kind
              rw [scans_files kind] at scans
              cases scans
            have stored : store.state.dbFingerprints.get? first.path =
                some (dbFingerprint machine first.path) := by
              by_contra moved
              have failed : (first.discover machine).isOk = false := by
                rw [Bool.eq_false_iff] at scans ⊢
                exact fun found => scans ((scans_db db).mpr ⟨moved, found⟩)
              rw [if_pos ⟨db, moved, failed⟩] at enumerated
              cases enumerated.1
            have kept : (store.scanSite machine first).state = store.state := by
              obtain ⟨scanned, -⟩ | ⟨-, same⟩ := scanSite_cases machine store first
              · rw [scans] at scanned
                cases scanned
              · exact same
            refine (prepared first List.mem_cons_self db stored).of_records ?_
            intro harness source _
            rw [LocalStore.recordOf, kept]
            rfl
      intro site member
      rcases List.mem_cons.mp member with rfl | later
      · refine settled.of_records ?_
        intro harness source covers
        have alone : Apart ([] ++ site :: rest) := apart
        exact recordOf_scanSites_apart fun next among => alone.uncovered covers next among
      · apply ih (List.pairwise_cons.mp apart).2 (List.pairwise_cons.mp distinct).2 _
          (prepared.rest apart distinct) _ enumerated.2 site later
        · intro next among
          exact once next (List.mem_cons_of_mem first among)
        · intro load among
          exact read load (List.mem_append_right _ among)

end Sites

section Reads

variable [HarnessNames] [DocumentCodec] {machine later : Machine} {store : LocalStore}
  {record : SourceRecord} {site : Site}

/-- A record as reading its source on a machine gives it; a session whose repository was not
known may still be pending. -/
inductive ReadBy (machine : Machine) (record : SourceRecord) : Prop where
  | loaded (transcript : Transcript) (repo : SessionRepo)
      (read : machine.load record.harness record.source = .ok transcript)
      (shape : record = loadedRecord record.harness record.source record.fingerprint
        record.freshness.updatedAt transcript repo)
      (origin : ∀ repoKey, repo = .key repoKey →
        machine.origin (Info.of transcript.metadata).cwd = .key repoKey)
  | broken (message : String) (now : DateTime)
      (read : machine.load record.harness record.source = .error (.broken message))
      (shape : record = brokenRecord now record.harness record.source record.fingerprint
        record.freshness.updatedAt)

theorem reading_readBy {harness : HarnessId} {source fingerprint : String}
    {updatedAt : Option DateTime} (agree : OriginsAgree machine store)
    (read : store.reading machine harness source fingerprint updatedAt = some record) :
    ReadBy machine record := by
  obtain ⟨rfl, rfl, rfl, rfl⟩ := reading_fields read
  unfold LocalStore.reading at read
  cases loaded : machine.load record.harness record.source with
  | ok transcript =>
      rw [loaded] at read
      refine .loaded transcript _ loaded (Option.some.inj read).symm ?_
      intro repoKey key
      rw [← agree.origin, key]
  | error failure =>
      rw [loaded] at read
      cases failure with
      | transient message => cases read
      | broken message => exact .broken message machine.now loaded (Option.some.inj read).symm

/-- A record of an entry that a machine lists, read there. -/
structure Recorded (machine : Machine) (record : SourceRecord) : Prop where
  listed : ∃ site ∈ sites machine, ∃ entry ∈ site.found machine, site.harness = record.harness ∧
    entry = ⟨record.source, record.fingerprint, record.freshness.updatedAt⟩
  read : ReadBy machine record

/-- A later look at a machine on which fingerprints can be trusted: databases stay, what has
the same fingerprint has the same contents, paths are spelled as before, and a repository
that was found stays where it is. -/
structure Later (machine later : Machine) : Prop where
  databases : ∀ site ∈ sites machine, site.kind = .db → site ∈ sites later
  discovered : ∀ site ∈ sites machine, site.kind = .db →
    dbFingerprint later site.path = dbFingerprint machine site.path →
      site.discover later = site.discover machine
  contents : ∀ site ∈ sites machine, ∀ entry ∈ site.found machine,
    ∀ other ∈ sites later, ∀ next ∈ other.found later, other.harness = site.harness →
      next.source = entry.source → next.fingerprint = entry.fingerprint →
        next = entry ∧ later.load site.harness entry.source = machine.load site.harness entry.source
  spelled : ∀ site ∈ sites machine, ∀ entry ∈ site.found machine, ∀ owner ∈ sites later,
    owner.harness = site.harness → owner.owns entry.source = true →
      ∃ other ∈ sites later, other.Covers site.harness entry.source
  origins : ∀ cwd repoKey, machine.origin cwd = .key repoKey → later.origin cwd = .key repoKey

theorem ReadBy.persist (read : ReadBy machine record) (honest : Later machine later)
    (same : later.load record.harness record.source = machine.load record.harness record.source) :
    ReadBy later record := by
  cases read with
  | loaded transcript repo read shape origin =>
      exact .loaded transcript repo (same.trans read) shape
        fun repoKey key => honest.origins _ repoKey (origin repoKey key)
  | broken message now read shape => exact .broken message now (same.trans read) shape

/-- A record that is still at the fingerprint of its source is as good as one read now. -/
theorem Recorded.persist (recorded : Recorded machine record) (honest : Later machine later)
    (member : site ∈ sites later) (ours : site.harness = record.harness) {entry : Found}
    (found : entry ∈ site.found later) (source : entry.source = record.source)
    (fingerprint : entry.fingerprint = record.fingerprint) : Recorded later record := by
  obtain ⟨first, present, old, listed, harness, rfl⟩ := recorded.listed
  obtain ⟨rfl, same⟩ := honest.contents first present _ listed site member entry found
    (ours.trans harness.symm) source fingerprint
  rw [harness] at same
  exact ⟨⟨site, member, _, found, ours, rfl⟩, recorded.read.persist honest same⟩

end Reads

section Scan

variable [HarnessNames] [DocumentCodec] {machine : Machine} {store : LocalStore} {site : Site}
  {property : SourceRecord → Prop}

omit [HarnessNames] [DocumentCodec] in
theorem recordsAll_retain {keep noted : String → SourceRecord → Bool}
    (all : RecordsAll (fun _ => property) store.state) :
    RecordsAll (fun _ => property) (store.retain keep noted).state := by
  intro key record found
  rw [retain_sources] at found
  exact all key record (Option.filter_eq_some_iff.mp found).1

/-- What holds of the old records and of what is read holds after a reload. -/
theorem recordsAll_reload {harness : HarnessId} {source fingerprint : String}
    {updatedAt : Option DateTime} (all : RecordsAll (fun _ => property) store.state)
    (fresh : ∀ record, store.reading machine harness source fingerprint updatedAt = some record →
      property record) :
    RecordsAll (fun _ => property)
      (store.reload machine harness source fingerprint updatedAt).state := by
  intro key record found
  rw [(reload_spec machine store harness source fingerprint updatedAt).sources] at found
  cases reading : store.reading machine harness source fingerprint updatedAt with
  | none =>
      rw [reading] at found
      exact all key record found
  | some read =>
      rw [reading, Option.elim_some, SortedMap.get?_insert] at found
      split at found
      · cases found
        exact fresh _ reading
      · exact all key record found

theorem recordsAll_scanSite (agree : OriginsAgree machine store)
    (all : RecordsAll (fun _ => property) store.state)
    (fresh : ∀ record, (∃ entry ∈ site.found machine, site.harness = record.harness ∧
      entry = ⟨record.source, record.fingerprint, record.freshness.updatedAt⟩) →
        ReadBy machine record → property record) :
    RecordsAll (fun _ => property) (store.scanSite machine site).state := by
  have considered : RecordsAll (fun _ => property)
      (store.consider machine site.harness (site.found machine)).state := by
    have loop := @Loop.foldl_invariant _ _ (fun store (entry : Found) =>
        store.reconsider machine site.harness entry.source entry.fingerprint entry.updatedAt)
      (site.found machine) store
      (fun _ store => OriginsAgree machine store ∧ RecordsAll (fun _ => property) store.state)
      ⟨agree, all⟩ ?_
    · exact loop.2
    · intro seen entry rest store split given
      have member : entry ∈ site.found machine := by simp [split]
      rw [reconsider_eq]
      split
      · exact given
      · refine ⟨given.1.same (reload_spec machine store _ _ _ _).origins, ?_⟩
        apply recordsAll_reload given.2
        intro record read
        obtain ⟨harness, source, fingerprint, updatedAt⟩ := reading_fields read
        refine fresh record ⟨entry, member, harness.symm, ?_⟩ (reading_readBy given.1 read)
        rw [source, fingerprint, updatedAt]
  obtain ⟨-, same⟩ | ⟨-, same⟩ := scanSite_cases machine store site
  · have dropped : RecordsAll (fun _ => property)
        (store.scanFound machine site (site.found machine)).state := recordsAll_retain considered
    intro key record found
    rw [same] at found
    exact dropped key record found
  · rw [same]
    exact all

theorem scanSite_same (machine : Machine) (store : LocalStore) (member : site ∈ sites machine) :
    SameOrigins machine store (store.scanSite machine site) := by
  have changes := @scanSite_changes _ _ machine store site member
  generalize store.scanSite machine site = final at changes ⊢
  induction changes with
  | refl => exact .of_repos rfl
  | tail _ change ih => exact ih.trans change.same

/-- Whether by one of the earlier looks or by this one, a record was listed and read. -/
def RecordedBy (seen : List Machine) (record : SourceRecord) : Prop :=
  ∃ machine ∈ seen, Recorded machine record

theorem recordsAll_scanSites {seen : List Machine} {present : List Site}
    (among : ∀ site ∈ present, site ∈ sites machine) (agree : OriginsAgree machine store)
    (all : RecordsAll (fun _ => RecordedBy (machine :: seen)) store.state) :
    RecordsAll (fun _ => RecordedBy (machine :: seen))
      (store.scanSites machine present).state := by
  induction present generalizing store with
  | nil => exact all
  | cons first rest ih =>
      have member := among first List.mem_cons_self
      apply ih (fun site later => among site (List.mem_cons_of_mem first later))
        (agree.same (scanSite_same machine store member))
      apply recordsAll_scanSite agree all
      intro record listed read
      obtain ⟨entry, found, ours, shape⟩ := listed
      exact ⟨machine, List.mem_cons_self, ⟨first, member, entry, found, ours, shape⟩, read⟩

end Scan

section Diff

variable [HarnessNames] [DocumentCodec] {machine : Machine} {store : LocalStore} {site : Site}
  {seen : List Machine}

/-- A machine whose sites are apart and list each source once. -/
structure Surveyed (machine : Machine) : Prop where
  apart : Apart (sites machine)
  distinct : DistinctDbs (sites machine)
  walked : ∀ site ∈ sites machine, Walked (machine.listing site.path)
  once : ∀ site ∈ sites machine, site.kind = .db → ((site.found machine).map (·.source)).Nodup

/-- Nothing disturbs a diff: the cache answers what `git` answers, no read fails transiently
and every database can be enumerated. -/
structure Quiet (machine : Machine) (store : LocalStore) : Prop where
  surveyed : Surveyed machine
  agree : OriginsAgree machine store
  read : ∀ load ∈ store.diffLoads machine, ¬ Transient machine load.1 load.2
  enumerated : store.opened.failedEnumerations machine (sites machine) = []

/-- A store whose records are those of a machine. -/
structure Tracks (machine : Machine) (store : LocalStore) : Prop where
  keyed : Keyed store
  current : ∀ site ∈ sites machine, SiteCurrent machine store site
  recorded : RecordsAll (fun _ => Recorded machine) store.state
  waits : ∀ key record, store.state.sources.get? key = some record → record.state = .pending →
    record.Waits machine

/-- What a store knows of the machines it has looked at. -/
structure Kept (seen : List Machine) (store : LocalStore) : Prop where
  keyed : Keyed store
  recorded : RecordsAll (fun _ => RecordedBy seen) store.state
  stored : ∀ path fingerprint, store.state.dbFingerprints.get? path = some fingerprint →
    ∃ machine ∈ seen, ∃ site ∈ sites machine, site.kind = .db ∧ site.path = path ∧
      fingerprint = dbFingerprint machine path ∧ SiteCurrent machine store site

theorem Surveyed.found (surveyed : Surveyed machine) (member : site ∈ sites machine) :
    ((site.found machine).map (·.source)).Nodup := by
  by_cases kind : site.kind = .db
  · exact surveyed.once site member kind
  · exact (surveyed.walked site member).found kind

omit [HarnessNames] [DocumentCodec] in
theorem DistinctDbs.unique {present : List Site} {other : Site} (distinct : DistinctDbs present)
    (member : site ∈ present) (another : other ∈ present) (db : site.kind = .db)
    (alike : other.kind = .db) (same : other.path = site.path) : other = site := by
  obtain ⟨before, after, rfl⟩ := List.append_of_mem member
  by_contra different
  rcases List.mem_append.mp another with early | late
  · exact distinct.earlier db other early alike same.symm
  · rcases List.mem_cons.mp late with equal | late
    · exact different equal
    · have tail := (List.pairwise_cons.mp (List.pairwise_append.mp distinct).2.1).1
      exact tail other late db alike same.symm

/-- A database that is left out has the records that it would list. -/
theorem Kept.prepared (kept : Kept seen store) (surveyed : Surveyed machine)
    (honest : ∀ earlier ∈ seen, Later earlier machine) :
    Prepared machine store (sites machine) := by
  intro site member db stored
  obtain ⟨earlier, before, first, present, kind, path, same, current⟩ :=
    kept.stored site.path _ stored
  have stays := (honest earlier before).databases first present kind
  obtain rfl := surveyed.distinct.unique member stays db kind path
  have discovered := (honest earlier before).discovered first present kind same
  have found : first.found machine = first.found earlier := by
    unfold Site.found
    rw [db, discovered]
  constructor
  · rw [found]
    exact current.listed
  · intro harness source covers has
    rw [← found_sources, found, found_sources]
    exact current.seen harness source covers has

theorem opened_kept (kept : Kept seen store) : Kept seen store.opened :=
  ⟨kept.keyed, kept.recorded, fun path fingerprint stored => by
    obtain ⟨machine, among, site, member, db, below, same, current⟩ :=
      kept.stored path fingerprint stored
    exact ⟨machine, among, site, member, db, below, same, current.of_records fun _ _ _ => rfl⟩⟩

/-- After the scans every site is up to date. -/
theorem scanned_current (quiet : Quiet machine store) (kept : Kept seen store)
    (honest : ∀ earlier ∈ seen, Later earlier machine) :
    ∀ site ∈ sites machine, SiteCurrent machine (store.scanned machine) site := by
  intro site member
  have scans : ∀ load ∈ store.opened.sitesLoads machine (sites machine),
      ¬ Transient machine load.1 load.2 :=
    fun load among => quiet.read load (List.mem_append_left _ among)
  have current := scanSites_current quiet.surveyed.apart quiet.surveyed.distinct
    (fun site member => quiet.surveyed.found member)
    ((opened_kept kept).prepared quiet.surveyed honest) scans quiet.enumerated site member
  constructor
  · intro entry found
    refine (upToDate_congr ?_).trans (current.listed entry found)
    exact recordOf_dropUnowned ⟨site, member, rfl, (owns_enumerated (mem_enumerated found)).1⟩
  · intro harness source covers has
    exact current.seen harness source covers (has_dropUnowned.mp has).1

/-- After the scans every record is one of the machine. -/
theorem scanned_recorded (quiet : Quiet machine store) (kept : Kept seen store)
    (honest : ∀ earlier ∈ seen, Later earlier machine) :
    RecordsAll (fun _ => Recorded machine) (store.scanned machine).state := by
  have agree : OriginsAgree machine store.opened := quiet.agree.same (.of_repos rfl)
  have known : RecordsAll (fun _ => RecordedBy (machine :: seen)) store.opened.state := by
    intro key record found
    obtain ⟨earlier, among, recorded⟩ := kept.recorded key record found
    exact ⟨earlier, List.mem_cons_of_mem machine among, recorded⟩
  have scanned : RecordsAll (fun _ => RecordedBy (machine :: seen))
      (store.scanned machine).state :=
    recordsAll_retain (recordsAll_scanSites (fun _ member => member) agree known)
  intro key record found
  obtain ⟨earlier, among, recorded⟩ := scanned key record found
  rcases List.mem_cons.mp among with rfl | before
  · exact recorded
  have keyed : Keyed (store.scanned machine) := scanned_keyed kept.keyed
  have place : key = sourceKey record.harness record.source :=
    keyed (key, record) (SortedMap.get?_eq_some_iff.mp found)
  have here : (store.scanned machine).recordOf record.harness record.source = some record := by
    rw [LocalStore.recordOf, ← place, found]
  have has : (store.scanned machine).Has record.harness record.source := ⟨record, here⟩
  obtain ⟨-, owner, present, ours, owns⟩ := has_dropUnowned.mp has
  obtain ⟨first, member, old, listed, harness, rfl⟩ := recorded.listed
  obtain ⟨site, covering, covers⟩ := (honest earlier before).spelled first member _ listed owner
    present (ours.trans harness.symm) owns
  rw [harness] at covers
  have current := scanned_current quiet kept honest site covering
  have enumerated := current.seen _ _ covers has
  rw [← found_sources] at enumerated
  obtain ⟨entry, among, source⟩ := List.mem_map.mp enumerated
  obtain ⟨held, there, fingerprint⟩ := upToDate_iff.mp (current.listed entry among)
  rw [← covers.1, source, here] at there
  cases there
  exact recorded.persist (honest earlier before) covering covers.1.symm among source
    fingerprint.symm

theorem resolvePending_recorded (keyed : Keyed store) (agree : OriginsAgree machine store)
    (recorded : RecordsAll (fun _ => Recorded machine) store.state) :
    RecordsAll (fun _ => Recorded machine) (store.resolvePending machine).state := by
  have loop : OriginsAgree machine (store.resolvePending machine) ∧
      RecordsAll (fun _ => Recorded machine) (store.resolvePending machine).state := by
    apply resolvePending_invariant keyed (fun state => OriginsAgree machine state ∧
      RecordsAll (fun _ => Recorded machine) state.state) ⟨agree, recorded⟩
    intro state key record _ found _ given
    obtain ⟨agrees, all⟩ := given
    refine ⟨agrees.same (resolvePendingKey_same machine state key), ?_⟩
    have resolved := resolveRepo_kept machine state record.info.cwd
    have still : RecordsAll (fun _ => Recorded machine)
        (state.resolveRepo machine record.info.cwd).2.state := by
      intro other held among
      rw [resolved.1] at among
      exact all other held among
    unfold LocalStore.resolvePendingKey
    rw [found]
    dsimp only
    split
    · apply recordsAll_reload still
      intro next read
      obtain ⟨harness, source, fingerprint, updatedAt⟩ := reading_fields read
      obtain ⟨site, member, entry, listed, ours, shape⟩ := (all key record found).listed
      have again := reading_readBy (agrees.same (resolveRepo_same machine state _)) read
      refine ⟨⟨site, member, entry, listed, ours.trans harness.symm, ?_⟩, again⟩
      rw [shape, source, fingerprint, updatedAt]
    · exact still
  exact loop.2

theorem SiteCurrent.resolvePending (current : SiteCurrent machine store site)
    (keyed : Keyed store) : SiteCurrent machine (store.resolvePending machine) site where
  listed := by
    intro entry member
    obtain ⟨record, found, fresh⟩ := upToDate_iff.mp (current.listed entry member)
    have same := (resolvePending_retried machine keyed).fingerprints site.harness entry.source
    rw [found] at same
    obtain ⟨next, after, fingerprint⟩ := Option.map_eq_some_iff.mp same
    exact upToDate_iff.mpr ⟨next, after, fingerprint.trans fresh⟩
  seen := by
    intro harness source covers has
    exact current.seen harness source covers (((resolvePending_kept keyed).2 harness source).mp has)

/-- A diff that nothing disturbs leaves the records of the machine. -/
theorem Kept.diff_mirrors (kept : Kept seen store) (quiet : Quiet machine store)
    (honest : ∀ earlier ∈ seen, Later earlier machine) : Tracks machine (store.diff machine) := by
  have keyed : Keyed (store.scanned machine) := scanned_keyed kept.keyed
  have settled := diff_settled kept.keyed quiet.surveyed.apart
    (fun site member _ => quiet.surveyed.found member) quiet.agree quiet.read quiet.enumerated
  have agree : OriginsAgree machine (store.scanned machine) :=
    quiet.agree.same (scanned_same machine store)
  exact {
    keyed := settled.keyed
    current := fun site member =>
      (scanned_current quiet kept honest site member).resolvePending keyed
    recorded := resolvePending_recorded keyed agree (scanned_recorded quiet kept honest)
    waits := settled.waits }

theorem Kept.diff (kept : Kept seen store) (quiet : Quiet machine store)
    (honest : ∀ earlier ∈ seen, Later earlier machine) :
    Kept (machine :: seen) (store.diff machine) := by
  have mirrors := kept.diff_mirrors quiet honest
  have settled := diff_settled kept.keyed quiet.surveyed.apart
    (fun site member _ => quiet.surveyed.found member) quiet.agree quiet.read quiet.enumerated
  refine ⟨mirrors.keyed, ?_, ?_⟩
  · intro key record found
    exact ⟨machine, List.mem_cons_self, mirrors.recorded key record found⟩
  · intro path fingerprint stored
    by_cases present : ∃ site ∈ sites machine, site.kind = .db ∧ site.path = path
    · obtain ⟨site, member, db, rfl⟩ := present
      rw [(settled.site site member).stored db] at stored
      exact ⟨machine, List.mem_cons_self, site, member, db, rfl, (Option.some.inj stored).symm,
        mirrors.current site member⟩
    · have untouched : (store.diff machine).state.dbFingerprints.get? path =
          store.state.dbFingerprints.get? path := by
        rw [diff_eq, (resolvePending_retried machine (scanned_keyed kept.keyed)).dbFingerprints,
          LocalStore.scanned, LocalStore.dropUnowned, retain_dbFingerprints]
        apply scanSites_dbFingerprints
        intro site member db same
        exact present ⟨site, member, db, same.symm⟩
      rw [untouched] at stored
      obtain ⟨earlier, among, site, member, db, below, -, -⟩ := kept.stored path fingerprint stored
      exact absurd ⟨site, (honest earlier among).databases site member db, db, below⟩ present

end Diff

section Mirror

variable [HarnessNames] [DocumentCodec] {machine : Machine} {left right : LocalStore}

theorem Surveyed.unique (surveyed : Surveyed machine) {site other : Site} {entry next : Found}
    (member : site ∈ sites machine) (listed : entry ∈ site.found machine)
    (another : other ∈ sites machine) (found : next ∈ other.found machine)
    (harness : other.harness = site.harness) (source : next.source = entry.source) :
    next = entry := by
  have covers : site.Covers site.harness entry.source :=
    ⟨rfl, (owns_enumerated (mem_enumerated listed)).2⟩
  have covered : other.Covers site.harness entry.source :=
    ⟨harness.symm, source ▸ (owns_enumerated (mem_enumerated found)).2⟩
  obtain rfl := surveyed.apart.unique member another covers covered
  exact List.inj_on_of_nodup_map (surveyed.found another) found listed source

theorem Tracks.has_iff (mirrors : Tracks machine left) {harness : HarnessId} {source : String} :
    left.Has harness source ↔ ∃ site ∈ sites machine, site.harness = harness ∧
      ∃ entry ∈ site.found machine, entry.source = source := by
  constructor
  · intro has
    obtain ⟨record, found⟩ := has
    obtain ⟨rfl, rfl⟩ := mirrors.keyed.recordOf found
    obtain ⟨site, member, entry, listed, ours, rfl⟩ := (mirrors.recorded _ record found).listed
    exact ⟨site, member, ours, _, listed, rfl⟩
  · intro given
    obtain ⟨site, member, rfl, entry, listed, rfl⟩ := given
    obtain ⟨record, found, -⟩ := upToDate_iff.mp ((mirrors.current site member).listed entry listed)
    exact ⟨record, found⟩

omit [HarnessNames] in
/-- Only the key of its repository gets into a record. -/
theorem loadedRecord_congr {harness : HarnessId} {source fingerprint : String}
    {updatedAt : Option DateTime} {transcript : Transcript} {repo other : SessionRepo}
    (same : ∀ repoKey, repo = .key repoKey ↔ other = .key repoKey) :
    loadedRecord harness source fingerprint updatedAt transcript repo =
      loadedRecord harness source fingerprint updatedAt transcript other := by
  cases repo with
  | key repoKey => rw [(same repoKey).mp rfl]
  | missingCwd | unresolved =>
      cases other with
      | key repoKey => cases (same repoKey).mpr rfl
      | missingCwd | unresolved => rfl

omit [HarnessNames] in
/-- A session without a repository waits for one. -/
theorem loadedRecord_pending {harness : HarnessId} {source fingerprint : String}
    {updatedAt : Option DateTime} {transcript : Transcript} {repo : SessionRepo}
    (named : transcript.metadata.id.isEmpty = false) (without : ∀ repoKey, repo ≠ .key repoKey) :
    (loadedRecord harness source fingerprint updatedAt transcript repo).state = .pending := by
  unfold loadedRecord
  cases repo with
  | key repoKey => exact absurd rfl (without repoKey)
  | missingCwd | unresolved => simp [named]

omit [HarnessNames] [DocumentCodec] in
/-- Two records that nothing but their remains of a source that cannot be used tells apart. -/
def Alike (one other : SourceRecord) : Prop :=
  one = other ∨ one.state = .broken ∧ other.state = .broken ∧ one.harness = other.harness ∧
    one.source = other.source ∧ one.fingerprint = other.fingerprint

theorem Recorded.alike {one other : SourceRecord} (surveyed : Surveyed machine)
    (first : Recorded machine one) (second : Recorded machine other)
    (harness : other.harness = one.harness) (source : other.source = one.source)
    (waits : one.state = .pending → one.Waits machine)
    (lingers : other.state = .pending → other.Waits machine) : Alike one other := by
  obtain ⟨site, member, entry, listed, ours, shape⟩ := first.listed
  obtain ⟨place, present, next, found, theirs, form⟩ := second.listed
  have equal := surveyed.unique member listed present found (theirs.trans (harness.trans ours.symm))
    (by rw [form, shape, source])
  rw [form, shape, Found.mk.injEq] at equal
  obtain ⟨-, fingerprint, updatedAt⟩ := equal
  cases first.read with
  | broken message now read broken =>
      cases second.read with
      | loaded transcript repo reread =>
          rw [harness, source, read] at reread
          cases reread
      | broken again later reread rebroken =>
          refine .inr ⟨?_, ?_, harness.symm, source.symm, fingerprint.symm⟩
          · rw [broken]
            rfl
          · rw [rebroken]
            rfl
  | loaded transcript repo read known origin =>
      cases second.read with
      | broken message now reread =>
          rw [harness, source, read] at reread
          cases reread
      | loaded again resolved reread reknown reorigin =>
          rw [harness, source, read] at reread
          cases reread
          rw [harness, source, fingerprint, updatedAt] at reknown
          cases named : transcript.metadata.id.isEmpty with
          | true =>
              refine .inr ⟨?_, ?_, harness.symm, source.symm, fingerprint.symm⟩
              · rw [known]
                simp [loadedRecord, named]
              · rw [reknown]
                simp [loadedRecord, named]
          | false =>
              have cwd : one.info.cwd = (Info.of transcript.metadata).cwd := by rw [known]; rfl
              have recwd : other.info.cwd = (Info.of transcript.metadata).cwd := by rw [reknown]; rfl
              -- A record without the repository that there is would be pending.
              have keeps : ∀ repoKey,
                  machine.origin (Info.of transcript.metadata).cwd = .key repoKey →
                    (∃ key, repo = .key key) ∧ ∃ key, resolved = .key key := by
                intro repoKey resolves
                constructor
                · by_contra without
                  have pending : one.state = .pending := by
                    rw [known]
                    exact loadedRecord_pending named fun key same => without ⟨key, same⟩
                  exact waits pending repoKey (cwd ▸ resolves)
                · by_contra without
                  have pending : other.state = .pending := by
                    rw [reknown]
                    exact loadedRecord_pending named fun key same => without ⟨key, same⟩
                  exact lingers pending repoKey (recwd ▸ resolves)
              left
              rw [known, reknown]
              apply loadedRecord_congr
              intro repoKey
              constructor
              · rintro rfl
                have here := origin repoKey rfl
                obtain ⟨-, key, rfl⟩ := keeps repoKey here
                rw [reorigin key rfl] at here
                exact here
              · rintro rfl
                have here := reorigin repoKey rfl
                obtain ⟨⟨key, rfl⟩, -⟩ := keeps repoKey here
                rw [origin key rfl] at here
                exact here

/-- Two stores that mirror one machine differ in broken records at most. -/
theorem Tracks.alike (surveyed : Surveyed machine) (mirrors : Tracks machine left)
    (reflects : Tracks machine right) (harness : HarnessId) (source : String) :
    Option.Rel Alike (left.recordOf harness source) (right.recordOf harness source) := by
  have both : left.Has harness source ↔ right.Has harness source :=
    mirrors.has_iff.trans reflects.has_iff.symm
  cases first : left.recordOf harness source with
  | none =>
      cases second : right.recordOf harness source with
      | none => exact .none
      | some other =>
          obtain ⟨record, found⟩ := both.mpr ⟨other, second⟩
          rw [first] at found
          cases found
  | some one =>
      obtain ⟨other, second⟩ := both.mp ⟨one, first⟩
      rw [second]
      obtain ⟨rfl, rfl⟩ := mirrors.keyed.recordOf first
      obtain ⟨ours, here⟩ := reflects.keyed.recordOf second
      exact .some ((mirrors.recorded _ one first).alike surveyed (reflects.recorded _ other second)
        ours here (mirrors.waits _ one first) (reflects.waits _ other second))

end Mirror

section Runs

variable [HarnessNames] [DocumentCodec] {store after : LocalStore} {seen more : List Machine}

theorem Kept.start : Kept seen .start where
  keyed := by
    intro entry member
    cases member
  recorded := recordsAll_empty _
  stored := by
    intro path fingerprint stored
    cases stored

theorem Kept.of_state (kept : Kept seen store) (sources : after.state.sources = store.state.sources)
    (dbFingerprints : after.state.dbFingerprints = store.state.dbFingerprints) :
    Kept seen after where
  keyed := by
    intro entry member
    rw [sources] at member
    exact kept.keyed entry member
  recorded := by
    intro key record found
    rw [sources] at found
    exact kept.recorded key record found
  stored := by
    intro path fingerprint stored
    rw [dbFingerprints] at stored
    obtain ⟨machine, among, site, member, db, below, same, current⟩ :=
      kept.stored path fingerprint stored
    refine ⟨machine, among, site, member, db, below, same, current.of_records ?_⟩
    intro harness source _
    rw [LocalStore.recordOf, sources]
    rfl

theorem Kept.mono (kept : Kept seen store) (grown : seen ⊆ more) : Kept more store where
  keyed := kept.keyed
  recorded := by
    intro key record found
    obtain ⟨machine, among, recorded⟩ := kept.recorded key record found
    exact ⟨machine, grown among, recorded⟩
  stored := by
    intro path fingerprint stored
    obtain ⟨machine, among, given⟩ := kept.stored path fingerprint stored
    exact ⟨machine, grown among, given⟩

/-- A diff that nothing disturbs, on a machine that every earlier look can be trusted for. -/
def Undisturbed (world : StoreWorld) : StoreAction → Prop
  | .diff machine => Quiet machine world.store ∧ ∀ earlier ∈ world.seen, Later earlier machine
  | _ => True

/-- The store and its file know the machines they were made on. -/
structure WorldKept (world : StoreWorld) : Prop where
  store : Kept world.seen world.store
  file : ∀ state, world.file = some state → Kept world.seen { LocalStore.start with state := state }

theorem WorldKept.step {world next : StoreWorld} {action : StoreAction} (kept : WorldKept world)
    (allowed : Undisturbed world action) (taken : storeStep world action = some next) :
    WorldKept next := by
  cases action with
  | load =>
      cases taken
      refine ⟨?_, kept.file⟩
      cases file : world.file with
      | none => exact .start
      | some state =>
          simp only [LocalStore.load]
          split
          · exact kept.file state file
          · exact .start
  | save diskError =>
      cases taken
      have saved : Kept world.seen { LocalStore.start with state := world.store.state } :=
        kept.store.of_state rfl rfl
      simp only [LocalStore.saveIfDirty]
      split
      · exact kept
      · cases diskError with
        | some error => exact kept
        | none =>
            refine ⟨kept.store.of_state rfl rfl, ?_⟩
            intro state same
            cases same
            exact saved
  | noteSwept now =>
      cases taken
      exact ⟨kept.store.of_state rfl rfl, kept.file⟩
  | diff machine =>
      cases taken
      exact ⟨kept.store.diff allowed.1 allowed.2,
        fun state same => (kept.file state same).mono (List.subset_cons_self machine world.seen)⟩
  | resolveDirectory machine dir =>
      cases taken
      have same := resolveDirectory_kept machine world.store dir
      exact ⟨(kept.store.of_state same.1 same.2).mono (List.subset_cons_self machine world.seen),
        fun state same => (kept.file state same).mono (List.subset_cons_self machine world.seen)⟩

end Runs

section Edited

attribute [local instance] HarnessNames.snakeCase DocumentCodec.padded

end Edited

end AgentTranscript
