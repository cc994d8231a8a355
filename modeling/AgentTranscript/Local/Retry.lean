import AgentTranscript.Local.Exact
import AgentTranscript.Local.Steady

/-!
Sources whose read fails for the moment. A diff keeps their records; whether the
next one reads them again is decided by the fingerprint of the record, or, in a
database, by the fingerprint of the database, which the failed read does not hold
back.
-/

set_option autoImplicit false

namespace AgentTranscript

section Definitions

variable [HarnessNames] [DocumentCodec] (machine : Machine) (store : LocalStore)

/-- The databases that can be enumerated have their fingerprints stored. -/
def LocalStore.fingerprinted (present : List Site) : LocalStore :=
  present.foldl (fun store site =>
    if site.kind = .db ∧ (site.discover machine).isOk = true then store.enumerated machine site.path
    else store) store

/-- Whether a site is scanned after the sites `before` it: a database is enumerated once. -/
def LocalStore.ScansAfter (before : List Site) (site : Site) : Prop :=
  store.scans machine site = true ∧ (site.kind = .db → ∀ other ∈ before, other.kind = .db →
    other.path = site.path → (other.discover machine).isOk = false)

/-- A scanned site drops the record of a source: its path starts the text of the source,
which it does not list. -/
def LocalStore.Drops (present : List Site) (harness : HarnessId) (source : String) : Prop :=
  ∃ before site, before ++ [site] <+: present ∧ store.ScansAfter machine before site ∧
    site.Covers harness source ∧ source ∉ site.enumerated machine

/-- A scanned site lists a source at another fingerprint than its record has by then. -/
def LocalStore.Rereads (present : List Site) (harness : HarnessId) (source : String) : Prop :=
  ∃ before site, before ++ [site] <+: present ∧ store.ScansAfter machine before site ∧
    harness = site.harness ∧ ∃ entry ∈ site.found machine, entry.source = source ∧
      (store.upToDate site.harness entry = false ∨ store.Drops machine before harness source)

end Definitions

section Scans

variable [HarnessNames] [DocumentCodec] {machine : Machine} {store : LocalStore} {site : Site}
  {present before : List Site} {harness : HarnessId} {source : String}

theorem scanSite_dbFingerprint (path : String) :
    (store.scanSite machine site).state.dbFingerprints.get? path =
      if site.kind = .db ∧ site.path = path ∧ (site.discover machine).isOk = true then
        some (dbFingerprint machine path)
      else store.state.dbFingerprints.get? path := by
  by_cases kind : site.kind = .db
  · rcases scanSite_db machine store kind with
      ⟨scans, same⟩ | ⟨-, ⟨stored, same⟩ | ⟨-, failed, message, same⟩⟩
    · have enumerable := ((scans_db kind).mp scans).2
      rw [same, LocalStore.enumerated, SortedMap.get?_insert, scanFound_dbFingerprints]
      by_cases here : path = site.path
      · rw [if_pos here, if_pos ⟨kind, here.symm, enumerable⟩, here]
      · rw [if_neg here, if_neg fun given => here given.2.1.symm]
    · rw [same]
      split
      · rename_i given
        rw [← given.2.1, stored]
      · rfl
    · rw [same, if_neg]
      · rfl
      · intro given
        rw [failed] at given
        cases given.2.2
  · rw [scanSite_files kind, scanFound_dbFingerprints, if_neg fun given => kind given.1]

theorem scanSites_dbFingerprint (path : String) :
    (store.scanSites machine present).state.dbFingerprints.get? path =
      if ∃ other ∈ present, other.kind = .db ∧ other.path = path ∧
          (other.discover machine).isOk = true then some (dbFingerprint machine path)
      else store.state.dbFingerprints.get? path := by
  induction present generalizing store with
  | nil => simp [LocalStore.scanSites]
  | cons first rest ih =>
      have next : (store.scanSites machine (first :: rest)).state.dbFingerprints.get? path =
          ((store.scanSite machine first).scanSites machine rest).state.dbFingerprints.get? path :=
        rfl
      rw [next, ih, scanSite_dbFingerprint]
      simp only [List.exists_mem_cons_iff]
      split
      · rename_i later
        rw [if_pos (.inr later)]
      · rename_i none
        simp only [none, or_false]

theorem fingerprinted_dbFingerprint (path : String) :
    (store.fingerprinted machine present).state.dbFingerprints.get? path =
      (store.scanSites machine present).state.dbFingerprints.get? path := by
  rw [scanSites_dbFingerprint]
  induction present generalizing store with
  | nil => simp [LocalStore.fingerprinted]
  | cons first rest ih =>
      have next : store.fingerprinted machine (first :: rest) =
          (if first.kind = .db ∧ (first.discover machine).isOk = true then
            store.enumerated machine first.path else store).fingerprinted machine rest := rfl
      rw [next, ih]
      simp only [List.exists_mem_cons_iff]
      split
      · rename_i later
        rw [if_pos (.inr later)]
      · rename_i none
        simp only [none, or_false]
        split
        · rename_i enumerable
          rw [LocalStore.enumerated, SortedMap.get?_insert]
          by_cases here : path = first.path
          · rw [if_pos here, if_pos ⟨enumerable.1, here.symm, enumerable.2⟩, here]
          · rw [if_neg here, if_neg fun given => here given.2.1.symm]
        · rename_i kept
          rw [if_neg fun given => kept ⟨given.1, given.2.2⟩]

omit [DocumentCodec] in
theorem fingerprinted_sources :
    (store.fingerprinted machine present).state.sources = store.state.sources := by
  induction present generalizing store with
  | nil => rfl
  | cons first rest ih =>
      refine ih.trans ?_
      dsimp only
      split <;> rfl

theorem scanSites_scans : (store.scanSites machine before).scans machine site = true ↔
    store.ScansAfter machine before site := by
  unfold LocalStore.ScansAfter
  by_cases kind : site.kind = .db
  · rw [scans_db kind, scans_db kind, scanSites_dbFingerprint]
    split
    · rename_i given
      obtain ⟨other, among, db, same, enumerable⟩ := given
      constructor
      · intro moved
        exact absurd rfl moved.1
      · intro given
        rw [given.2 kind other among db same] at enumerable
        cases enumerable
    · rename_i none
      refine (and_iff_left ?_).symm
      intro _ other among db same
      by_contra enumerable
      exact none ⟨other, among, db, same, by simpa using enumerable⟩
  · simp [scans_files kind, kind]

end Scans

section Attempts

variable [HarnessNames] [DocumentCodec] {machine : Machine} {store : LocalStore} {site : Site}
  {present before after : List Site} {harness : HarnessId} {source : String}

theorem scanSites_concat : store.scanSites machine (present ++ [site]) =
    (store.scanSites machine present).scanSite machine site := by
  unfold LocalStore.scanSites
  rw [List.foldl_append]
  rfl

theorem drops_concat : store.Drops machine (present ++ [site]) harness source ↔
    store.Drops machine present harness source ∨ (store.ScansAfter machine present site ∧
      site.Covers harness source ∧ source ∉ site.enumerated machine) := by
  constructor
  · intro given
    obtain ⟨before, other, among, dropped⟩ := given
    rcases List.prefix_concat_iff.mp among with whole | early
    · obtain ⟨rfl, same⟩ := List.append_inj' whole rfl
      cases same
      exact .inr dropped
    · exact .inl ⟨before, other, early, dropped⟩
  · intro given
    rcases given with ⟨before, other, early, dropped⟩ | dropped
    · exact ⟨before, other, early.trans (List.prefix_append present [site]), dropped⟩
    · exact ⟨present, site, List.prefix_rfl, dropped⟩

theorem rereads_concat : store.Rereads machine (present ++ [site]) harness source ↔
    store.Rereads machine present harness source ∨ (store.ScansAfter machine present site ∧
      harness = site.harness ∧ ∃ entry ∈ site.found machine, entry.source = source ∧
        (store.upToDate site.harness entry = false ∨
          store.Drops machine present harness source)) := by
  constructor
  · intro given
    obtain ⟨before, other, among, read⟩ := given
    rcases List.prefix_concat_iff.mp among with whole | early
    · obtain ⟨rfl, same⟩ := List.append_inj' whole rfl
      cases same
      exact .inr read
    · exact .inl ⟨before, other, early, read⟩
  · intro given
    rcases given with ⟨before, other, early, read⟩ | read
    · exact ⟨before, other, early.trans (List.prefix_append present [site]), read⟩
    · exact ⟨present, site, List.prefix_rfl, read⟩

theorem sitesLoads_append : store.sitesLoads machine (before ++ after) =
    store.sitesLoads machine before ++
      (store.scanSites machine before).sitesLoads machine after := by
  induction before generalizing store with
  | nil => rfl
  | cons first rest ih =>
      rw [List.cons_append, LocalStore.sitesLoads, LocalStore.sitesLoads, ih, List.append_assoc]
      rfl

/-- What sites that do not read a source leave of its record. -/
theorem recordOf_scanSites (unread : Transient machine harness source ∨
    (harness, source) ∉ store.sitesLoads machine present) :
    (store.Drops machine present harness source →
      (store.scanSites machine present).recordOf harness source = none) ∧
    (¬ store.Drops machine present harness source →
      (store.scanSites machine present).recordOf harness source =
        store.recordOf harness source) := by
  induction present using List.reverseRecOn with
  | nil =>
      refine ⟨?_, fun _ => rfl⟩
      intro given
      obtain ⟨before, site, among, -⟩ := given
      simp at among
  | append_singleton present site ih =>
      rw [sitesLoads_append, List.mem_append, not_or] at unread
      obtain ⟨gone, kept⟩ := ih (unread.imp_right And.left)
      have last : Transient machine harness source ∨
          (harness, source) ∉ (store.scanSites machine present).siteLoads machine site := by
        refine unread.imp_right fun reads => ?_
        simpa [LocalStore.sitesLoads] using reads.2
      rw [drops_concat, ← scanSites_scans, scanSites_concat, recordOf_scanSite last]
      constructor
      · intro given
        split
        · rfl
        · rename_i spared
          exact gone (given.resolve_right spared)
      · intro given
        rw [not_or] at given
        rw [if_neg given.2, kept given.1]

/-- The sites of a diff read a source when one of them finds its record behind. -/
theorem mem_sitesLoads : (harness, source) ∈ store.sitesLoads machine present ↔
    store.Rereads machine present harness source := by
  induction present using List.reverseRecOn with
  | nil =>
      constructor
      · intro given
        cases given
      · intro given
        obtain ⟨before, site, among, -⟩ := given
        simp at among
  | append_singleton present site ih =>
      have last : (harness, source) ∈ store.sitesLoads machine (present ++ [site]) ↔
          (harness, source) ∈ store.sitesLoads machine present ∨
            (harness, source) ∈ (store.scanSites machine present).siteLoads machine site := by
        rw [sitesLoads_append, List.mem_append]
        simp [LocalStore.sitesLoads]
      rw [last, rereads_concat, ih, mem_siteLoads, scanSites_scans]
      by_cases read : store.Rereads machine present harness source
      · simp only [read, true_or]
      obtain ⟨gone, kept⟩ := recordOf_scanSites (.inr (mt ih.mp read))
      simp only [read, false_or]
      refine and_congr_right fun _ => and_congr_right fun ours => ?_
      refine exists_congr fun entry => and_congr_right fun _ => and_congr_right fun same => ?_
      subst ours same
      by_cases dropped : store.Drops machine present site.harness entry.source
      · have stale : (store.scanSites machine present).upToDate site.harness entry = false := by
          rw [LocalStore.upToDate, gone dropped]
          rfl
        simp only [stale, dropped, or_true]
      · rw [upToDate_congr (kept dropped)]
        simp only [dropped, or_false]

omit [DocumentCodec] in
theorem mem_retryLoads {key : String} (keyed : Keyed store) :
    (harness, source) ∈ store.retryLoads machine key ↔ key = sourceKey harness source ∧
      ∃ record, store.recordOf harness source = some record ∧
        ∃ repoKey, store.origin machine record.info.cwd = .key repoKey := by
  unfold LocalStore.retryLoads
  cases found : store.state.sources.get? key with
  | none =>
      constructor
      · intro given
        cases given
      · intro given
        obtain ⟨rfl, record, here, -⟩ := given
        cases found.symm.trans here
  | some record =>
      obtain rfl : key = sourceKey record.harness record.source :=
        keyed (key, record) (SortedMap.get?_eq_some_iff.mp found)
      dsimp only
      constructor
      · intro given
        split at given
        · rename_i repoKey resolves
          cases List.mem_singleton.mp given
          exact ⟨rfl, record, found, repoKey, resolves⟩
        · cases given
      · intro given
        obtain ⟨here, other, stored, repoKey, resolves⟩ := given
        obtain ⟨rfl, rfl⟩ := sourceKey_inj.mp here
        cases found.symm.trans stored
        rw [resolves]
        exact List.mem_singleton_self _

/-- The retries of a diff read a source when its record is due and resolves. -/
theorem mem_pendingLoads {keys : List String} (keyed : Keyed store) (distinct : keys.Nodup) :
    (harness, source) ∈ store.pendingLoads machine keys ↔
      sourceKey harness source ∈ keys ∧ ∃ record, store.recordOf harness source = some record ∧
        ∃ repoKey, store.origin machine record.info.cwd = .key repoKey := by
  induction keys generalizing store with
  | nil => simp [LocalStore.pendingLoads]
  | cons first rest ih =>
      obtain ⟨fresh, others⟩ := List.nodup_cons.mp distinct
      have origins := resolvePendingKey_same machine store first
      rw [LocalStore.pendingLoads, List.mem_append, mem_retryLoads keyed,
        ih (resolvePendingKey_kept machine keyed first).1 others, List.mem_cons, or_and_right,
        @eq_comm _ first]
      refine or_congr_right (and_congr_right fun among => ?_)
      have kept : (store.resolvePendingKey machine first).recordOf harness source =
          store.recordOf harness source :=
        resolvePendingKey_other machine keyed fun same => fresh (same ▸ among)
      simp only [kept, origins.origin]

omit [DocumentCodec] in
theorem mem_pendingKeys : sourceKey harness source ∈ store.pendingKeys ↔
    ∃ record, store.recordOf harness source = some record ∧ record.state = .pending := by
  unfold LocalStore.pendingKeys LocalStore.recordOf
  constructor
  · intro given
    obtain ⟨entry, among, same⟩ := List.mem_map.mp given
    obtain ⟨stored, pending⟩ := List.mem_filter.mp among
    rw [← same]
    exact ⟨entry.2, SortedMap.get?_eq_some_iff.mpr stored, by simpa using pending⟩
  · intro given
    obtain ⟨record, found, pending⟩ := given
    exact List.mem_map.mpr ⟨(sourceKey harness source, record), List.mem_filter.mpr
      ⟨SortedMap.get?_eq_some_iff.mp found, by simpa using pending⟩, rfl⟩

/-- A diff reads a source when a scan does, or when its record waits and resolves now. -/
theorem mem_diffLoads (keyed : Keyed store) (owned : ∃ site ∈ sites machine,
    site.harness = harness ∧ site.owns source = true) :
    (harness, source) ∈ store.diffLoads machine ↔
      store.Rereads machine (sites machine) harness source ∨
        (¬ store.Drops machine (sites machine) harness source ∧
          ∃ record, store.recordOf harness source = some record ∧ record.state = .pending ∧
            ∃ repoKey, store.origin machine record.info.cwd = .key repoKey) := by
  have scans : (harness, source) ∈ store.opened.sitesLoads machine (sites machine) ↔
      store.Rereads machine (sites machine) harness source := mem_sitesLoads
  rw [LocalStore.diffLoads, List.mem_append, scans,
    mem_pendingLoads (scanned_keyed keyed) (pendingKeys_nodup _), mem_pendingKeys]
  by_cases read : store.Rereads machine (sites machine) harness source
  · simp only [read, true_or]
  simp only [read, false_or]
  have left : (store.scanned machine).recordOf harness source =
      (store.opened.scanSites machine (sites machine)).recordOf harness source :=
    recordOf_dropUnowned owned
  have unread : (harness, source) ∉ store.opened.sitesLoads machine (sites machine) :=
    mt scans.mp read
  obtain ⟨gone, kept⟩ := recordOf_scanSites (.inr unread)
  rw [left]
  by_cases dropped : store.Drops machine (sites machine) harness source
  · rw [gone dropped]
    simp [dropped]
  · have same : (store.opened.scanSites machine (sites machine)).recordOf harness source =
        store.recordOf harness source := kept dropped
    rw [same]
    simp only [dropped, not_false_eq_true, true_and, (scanned_same machine store).origin]
    constructor
    · intro given
      obtain ⟨⟨record, found, pending⟩, other, again, resolves⟩ := given
      cases found.symm.trans again
      exact ⟨record, found, pending, resolves⟩
    · intro given
      obtain ⟨record, found, pending, resolves⟩ := given
      exact ⟨⟨record, found, pending⟩, record, found, resolves⟩

end Attempts

section Kept

variable [HarnessNames] [DocumentCodec] {machine later : Machine} {store : LocalStore}
  {site : Site} {present : List Site} {harness : HarnessId} {source : String}

theorem recordOf_resolvePendingKey (failed : Transient machine harness source) (key : String) :
    (store.resolvePendingKey machine key).recordOf harness source =
      store.recordOf harness source := by
  unfold LocalStore.resolvePendingKey
  split
  · rfl
  · rename_i record found
    have kept : (store.resolveRepo machine record.info.cwd).2.recordOf harness source =
        store.recordOf harness source := by
      rw [LocalStore.recordOf, (resolveRepo_kept machine store record.info.cwd).1]
      rfl
    dsimp only
    split
    · rw [recordOf_reload]
      split
      · rename_i here
        obtain ⟨rfl, rfl⟩ := here
        rw [reading_eq_none.mpr failed, Option.none_or, kept]
      · exact kept
    · exact kept

/-- A diff leaves the record of a source that cannot be read for the moment, unless a
site that does not list it drops it. -/
theorem recordOf_diff (keyed : Keyed store) (member : site ∈ sites machine)
    (listed : source ∈ site.enumerated machine) (failed : Transient machine site.harness source) :
    (store.Drops machine (sites machine) site.harness source →
      (store.diff machine).recordOf site.harness source = none) ∧
    (¬ store.Drops machine (sites machine) site.harness source →
      (store.diff machine).recordOf site.harness source =
        store.recordOf site.harness source) := by
  have resolved : (store.diff machine).recordOf site.harness source =
      (store.scanned machine).recordOf site.harness source := by
    rw [diff_eq]
    apply resolvePending_invariant (scanned_keyed keyed) (fun state =>
      state.recordOf site.harness source = (store.scanned machine).recordOf site.harness source) rfl
    intro state key record _ _ _ same
    exact (recordOf_resolvePendingKey failed key).trans same
  have owned : (store.scanned machine).recordOf site.harness source =
      (store.opened.scanSites machine (sites machine)).recordOf site.harness source :=
    recordOf_dropUnowned ⟨site, member, rfl, (owns_enumerated listed).1⟩
  have scans : (store.opened.Drops machine (sites machine) site.harness source →
      (store.opened.scanSites machine (sites machine)).recordOf site.harness source = none) ∧
    (¬ store.opened.Drops machine (sites machine) site.harness source →
      (store.opened.scanSites machine (sites machine)).recordOf site.harness source =
        store.opened.recordOf site.harness source) := recordOf_scanSites (.inl failed)
  rw [resolved, owned]
  exact scans

theorem diff_dbFingerprint (keyed : Keyed store) (path : String) :
    (store.diff machine).state.dbFingerprints.get? path =
      (store.fingerprinted machine (sites machine)).state.dbFingerprints.get? path := by
  rw [diff_eq, (resolvePending_retried machine (scanned_keyed keyed)).dbFingerprints,
    LocalStore.scanned, LocalStore.dropUnowned, retain_dbFingerprints,
    fingerprinted_dbFingerprint, scanSites_dbFingerprint, scanSites_dbFingerprint]
  rfl

section

variable {before after : LocalStore} (fingerprints : ∀ path,
  after.state.dbFingerprints.get? path = before.state.dbFingerprints.get? path)

include fingerprints

omit [DocumentCodec] in
theorem scansAfter_congr (earlier : List Site) (site : Site) :
    after.ScansAfter machine earlier site ↔ before.ScansAfter machine earlier site := by
  unfold LocalStore.ScansAfter LocalStore.scans
  rw [fingerprints]

theorem drops_congr : after.Drops machine present harness source ↔
    before.Drops machine present harness source := by
  unfold LocalStore.Drops
  simp only [scansAfter_congr fingerprints]

theorem rereads_congr (same : after.recordOf harness source = before.recordOf harness source) :
    after.Rereads machine present harness source ↔
      before.Rereads machine present harness source := by
  unfold LocalStore.Rereads
  simp only [scansAfter_congr fingerprints, drops_congr fingerprints]
  refine exists_congr fun earlier => exists_congr fun site => and_congr_right fun _ =>
    and_congr_right fun _ => and_congr_right fun ours => exists_congr fun entry =>
      and_congr_right fun _ => and_congr_right fun here => or_congr_left ?_
  subst ours here
  rw [upToDate_congr same]

end

/-- When the source of a failed read keeps its record and is read by the next diff. The
databases that the first diff enumerated are looked at again only if they change. -/
theorem transient_retried_iff (keyed : Keyed store) (member : site ∈ sites machine)
    (listed : source ∈ site.enumerated machine) (failed : Transient machine site.harness source)
    (stays : site ∈ sites later) (still : source ∈ site.enumerated later) :
    (store.diff machine).recordOf site.harness source = store.recordOf site.harness source ∧
        (site.harness, source) ∈ (store.diff machine).diffLoads later ↔
      (store.Drops machine (sites machine) site.harness source →
          store.recordOf site.harness source = none) ∧
        ((store.fingerprinted machine (sites machine)).Rereads later (sites later)
            site.harness source ∨
          (¬ (store.fingerprinted machine (sites machine)).Drops later (sites later)
              site.harness source ∧
            ∃ record, store.recordOf site.harness source = some record ∧
              record.state = .pending ∧
              ∃ repoKey, (store.diff machine).origin later record.info.cwd = .key repoKey)) := by
  obtain ⟨gone, kept⟩ := recordOf_diff keyed member listed failed
  have unchanged : (store.diff machine).recordOf site.harness source =
        store.recordOf site.harness source ↔
      (store.Drops machine (sites machine) site.harness source →
        store.recordOf site.harness source = none) := by
    constructor
    · intro same dropped
      rw [← same, gone dropped]
    · intro absent
      by_cases dropped : store.Drops machine (sites machine) site.harness source
      · rw [gone dropped, absent dropped]
      · exact kept dropped
  rw [← unchanged]
  refine and_congr_right fun same => ?_
  have owned : ∃ other ∈ sites later, other.harness = site.harness ∧ other.owns source = true :=
    ⟨site, stays, rfl, (owns_enumerated still).1⟩
  have fingerprints := @diff_dbFingerprint _ _ machine store keyed
  have sources : (store.fingerprinted machine (sites machine)).recordOf site.harness source =
      store.recordOf site.harness source := by
    rw [LocalStore.recordOf, fingerprinted_sources]
    rfl
  rw [mem_diffLoads keyed.diff owned, drops_congr fingerprints,
    rereads_congr fingerprints (same.trans sources.symm), same]

end Kept

section Locked

attribute [local instance] HarnessNames.snakeCase DocumentCodec.padded

/-- A machine whose only session file cannot be read for the moment. -/
def busyFile : Machine :=
  { oneSession 1 "/a" with loadPath := fun _ _ _ => .error (.transient "locked") }

/-- A machine whose only database has one session, which cannot be read for the moment. -/
def busyDb : Machine :=
  { installed with loadDb := fun _ _ _ => .error (.transient "locked") }

theorem busyFile_fails : Transient busyFile .codex "/c/s.jsonl" :=
  ⟨"locked", by rfl⟩

theorem busyDb_fails : Transient busyDb .hermes "/h/state.db\n1" :=
  ⟨"locked", by rfl⟩

/-- The file is read again. -/
theorem busyFile_retried :
    (.codex, "/c/s.jsonl") ∈ (LocalStore.start.diff busyFile).diffLoads busyFile := by
  have run : StoreRun .start := .refl
  have member : (⟨.codex, "/c", .files (.ext "jsonl") []⟩ : Site) ∈ sites busyFile := by
    decide +kernel
  have listed : "/c/s.jsonl" ∈
      Site.enumerated busyFile ⟨.codex, "/c", .files (.ext "jsonl") []⟩ := by decide +kernel
  have reread : (LocalStore.start.fingerprinted busyFile (sites busyFile)).Rereads busyFile
      (sites busyFile) .codex "/c/s.jsonl" := by
    refine ⟨[], ⟨.codex, "/c", .files (.ext "jsonl") []⟩, ⟨[], by decide +kernel⟩,
      ⟨scans_files (by decide), fun kind => by cases kind⟩, rfl,
      ⟨"/c/s.jsonl", "1:1", some 1⟩, by decide +kernel, rfl, .inl ?_⟩
    decide +kernel
  exact ((transient_retried_iff (storeRun_keyed run) member listed busyFile_fails member
    listed).mpr ⟨fun _ => rfl, .inl reread⟩).2

/-- The session of the database is not: the database has not changed. -/
theorem busyDb_forgotten : ¬ ∀ (machine later : Machine) (store : LocalStore) (site : Site)
    (source : String), Keyed store → site ∈ sites machine → source ∈ site.enumerated machine →
      (site.harness, source) ∈ store.diffLoads machine → Transient machine site.harness source →
      site ∈ sites later → source ∈ site.enumerated later →
        (store.diff machine).recordOf site.harness source =
            store.recordOf site.harness source ∧
          (site.harness, source) ∈ (store.diff machine).diffLoads later := by
  intro retried
  have run : StoreRun .start := .refl
  have member : (⟨.hermes, "/h/state.db", .db⟩ : Site) ∈ sites busyDb := by decide +kernel
  have listed : "/h/state.db\n1" ∈ Site.enumerated busyDb ⟨.hermes, "/h/state.db", .db⟩ := by
    decide +kernel
  have read : (.hermes, "/h/state.db\n1") ∈ LocalStore.start.diffLoads busyDb := by
    decide +kernel
  have again := (retried busyDb busyDb .start _ _ (storeRun_keyed run) member listed read
    busyDb_fails member listed).2
  have idle : (LocalStore.start.diff busyDb).diffLoads busyDb = [] := by decide +kernel
  rw [idle] at again
  cases again

end Locked

end AgentTranscript
