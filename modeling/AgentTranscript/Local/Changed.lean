import AgentTranscript.Local.Steps

/-!
Which repositories a diff reports as changed. A record that is added or removed
reports its repository; one that a reload replaces does not report the repository
it belonged to.
-/

set_option autoImplicit false

namespace AgentTranscript

open Relation

/-- What a search index of a repository depends on in a record: session id, source,
fingerprint and content hash. -/
abbrev Indexed := String × String × String × String

def SourceRecord.indexed (repoKey : String) (record : SourceRecord) : Option Indexed :=
  if record.state = .ready ∧ record.repoKey = some repoKey then
    some (record.sessionId, record.source, record.fingerprint, record.freshness.contentHash)
  else none

def LocalStore.indexedAt (store : LocalStore) (repoKey key : String) : Option Indexed :=
  (store.state.sources.get? key).bind (·.indexed repoKey)

/-- The ready records of a repository. -/
def LocalStore.ready (store : LocalStore) (repoKey : String) : Set Indexed :=
  {indexed | ∃ record ∈ store.records, record.indexed repoKey = some indexed}

section Reports

variable {store : LocalStore} {repoKey key : String} {record : SourceRecord}

theorem indexed_eq_some {shown : Indexed} (given : record.indexed repoKey = some shown) :
    (record.state = .ready ∧ record.repoKey = some repoKey) ∧ shown =
      (record.sessionId, record.source, record.fingerprint, record.freshness.contentHash) := by
  unfold SourceRecord.indexed at given
  split at given
  · exact ⟨‹_›, (Option.some.inj given).symm⟩
  · cases given

theorem indexed_eq_none (other : ¬ (record.state = .ready ∧ record.repoKey = some repoKey)) :
    record.indexed repoKey = none := if_neg other

theorem ready_eq {before after : LocalStore}
    (same : ∀ key, after.indexedAt repoKey key = before.indexedAt repoKey key) :
    after.ready repoKey = before.ready repoKey := by
  have given : ∀ store : LocalStore, store.ready repoKey =
      {indexed | ∃ key, store.indexedAt repoKey key = some indexed} := by
    intro store
    ext indexed
    simp only [LocalStore.ready, LocalStore.records, LocalStore.indexedAt, SortedMap.mem_values,
      Option.bind_eq_some_iff, Set.mem_ofPred_eq]
    constructor
    · intro given
      obtain ⟨record, ⟨key, found⟩, shown⟩ := given
      exact ⟨key, record, found, shown⟩
    · intro given
      obtain ⟨key, record, found, shown⟩ := given
      exact ⟨record, ⟨key, found⟩, shown⟩
  rw [given, given]
  simp only [same]

theorem retain_changedRepos (store : LocalStore) (keep noted : String → SourceRecord → Bool) :
    store.report.changedRepos ⊆ (store.retain keep noted).report.changedRepos := by
  unfold LocalStore.retain
  dsimp only
  split
  · exact subset_rfl
  · exact Finset.subset_union_left

theorem retain_reports {keep noted : String → SourceRecord → Bool}
    (found : store.state.sources.get? key = some record) (dropped : keep key record = false)
    (notes : noted key record = true) (ours : record.repoKey = some repoKey) :
    repoKey ∈ (store.retain keep noted).report.changedRepos := by
  have removed : (key, record) ∈ store.state.sources.entries.filter fun entry =>
      !keep entry.1 entry.2 :=
    List.mem_filter.mpr ⟨SortedMap.get?_eq_some_iff.mp found, by simp [dropped]⟩
  unfold LocalStore.retain
  dsimp only
  split
  · rename_i none
    rw [List.isEmpty_iff.mp none] at removed
    cases removed
  · apply Finset.mem_union_right
    rw [List.mem_toFinset, List.mem_filterMap]
    exact ⟨(key, record), removed, by rw [if_pos notes, ours]⟩

/-- Dropping records reports the repositories that lose them. -/
theorem retain_indexed {keep noted : String → SourceRecord → Bool}
    (notes : ∀ key record, store.state.sources.get? key = some record → keep key record = false →
      noted key record = true)
    (unreported : repoKey ∉ (store.retain keep noted).report.changedRepos) :
    (store.retain keep noted).indexedAt repoKey key = store.indexedAt repoKey key := by
  unfold LocalStore.indexedAt
  rw [retain_sources]
  cases found : store.state.sources.get? key with
  | none => rfl
  | some record =>
      cases kept : keep key record with
      | true => rw [Option.filter_some, if_pos kept]
      | false =>
          rw [Option.filter_some, kept, if_neg Bool.false_ne_true]
          refine (indexed_eq_none ?_).symm
          intro ours
          exact unreported (retain_reports found kept (notes key record found kept) ours.2)

end Reports

section Diff

variable [HarnessNames] [DocumentCodec]

/-- A diff takes a ready record from a repository without removing it: it reads the
source at another fingerprint, and what it reads is not a ready record there. -/
def LocalStore.Displaces (machine : Machine) (store : LocalStore) (repoKey : String) : Prop :=
  ∃ record ∈ store.records, record.state = .ready ∧ record.repoKey = some repoKey ∧
    ∃ site ∈ sites machine, store.scans machine site = true ∧ site.harness = record.harness ∧
      ∃ entry ∈ site.found machine, entry.source = record.source ∧
        entry.fingerprint ≠ record.fingerprint ∧
        ∃ next, store.reading machine record.harness record.source entry.fingerprint
            entry.updatedAt = some next ∧
          ¬ (next.state = .ready ∧ next.repoKey = some repoKey)

variable {machine : Machine} {initial store next : LocalStore} {repoKey : String}

/-- What holds at every point of a diff that displaces no record of a repository. -/
structure Reporting (machine : Machine) (repoKey : String) (initial store : LocalStore) : Prop where
  keyed : Keyed store
  origins : SameOrigins machine initial store
  scans : ∀ site, store.scans machine site = true → initial.scans machine site = true
  unreported : repoKey ∉ store.report.changedRepos →
    ∀ key, store.indexedAt repoKey key = initial.indexedAt repoKey key

theorem Reporting.reload {harness : HarnessId} {source fingerprint : String}
    {updatedAt : Option DateTime} (reporting : Reporting machine repoKey initial store)
    (free : repoKey ∉ store.report.changedRepos →
      ∀ record, store.reading machine harness source fingerprint updatedAt = some record →
        ¬ (record.state = .ready ∧ record.repoKey = some repoKey) →
        store.indexedAt repoKey (sourceKey harness source) = none) :
    Reporting machine repoKey initial
      (store.reload machine harness source fingerprint updatedAt) := by
  have reloaded := reload_spec machine store harness source fingerprint updatedAt
  refine ⟨reporting.keyed.reload, reporting.origins.trans reloaded.origins, ?_, ?_⟩
  · intro site scans
    apply reporting.scans
    rw [← scans]
    unfold LocalStore.scans
    rw [reloaded.dbFingerprints]
  · intro unreported key
    rw [reloaded.changedRepos, Finset.mem_union, not_or] at unreported
    rw [← reporting.unreported unreported.1 key]
    unfold LocalStore.indexedAt at free ⊢
    rw [reloaded.sources]
    cases read : store.reading machine harness source fingerprint updatedAt with
    | none => rfl
    | some record =>
        have elsewhere : ¬ (record.state = .ready ∧ record.repoKey = some repoKey) := by
          intro ours
          apply unreported.2
          simp [read, ours.1, ours.2]
        rw [Option.elim_some, SortedMap.get?_insert]
        split
        · rename_i here
          rw [here, free unreported.1 record read elsewhere]
          exact indexed_eq_none elsewhere
        · rfl

omit [DocumentCodec] in
theorem Reporting.retain {keep noted : String → SourceRecord → Bool}
    (reporting : Reporting machine repoKey initial store)
    (notes : ∀ key record, store.state.sources.get? key = some record → keep key record = false →
      noted key record = true) :
    Reporting machine repoKey initial (store.retain keep noted) := by
  refine ⟨reporting.keyed.retain keep noted, reporting.origins.trans (.of_repos (retain_repos _ _ _)),
    ?_, ?_⟩
  · intro site scans
    apply reporting.scans
    rw [← scans]
    unfold LocalStore.scans
    rw [retain_dbFingerprints]
  · intro unreported key
    rw [retain_indexed notes unreported]
    exact reporting.unreported (fun early => unreported (retain_changedRepos _ _ _ early)) key

/-- The repository that a reload takes a record from is the only one it does not report. -/
theorem Reporting.step (reporting : Reporting machine repoKey initial store)
    (keyed : Keyed initial) (stays : ¬ initial.Displaces machine repoKey)
    (change : DiffChange machine store next) : Reporting machine repoKey initial next := by
  cases change with
  | @read site entry present scans found stale =>
      apply reporting.reload
      intro unreported read reading elsewhere
      have same := reporting.unreported unreported (sourceKey site.harness entry.source)
      by_contra occupied
      obtain ⟨shown, shape⟩ := Option.ne_none_iff_exists'.mp occupied
      obtain ⟨current, here, indexed⟩ := Option.bind_eq_some_iff.mp shape
      obtain ⟨old, before, again⟩ := Option.bind_eq_some_iff.mp (same.symm.trans shape)
      obtain ⟨ours, placed⟩ := keyed.recordOf before
      obtain ⟨held, atFirst⟩ := indexed_eq_some again
      have atNow := (indexed_eq_some indexed).2
      have fingerprint : old.fingerprint = current.fingerprint := by
        simp only [atFirst, Prod.mk.injEq] at atNow
        exact atNow.2.2.1
      have moved : entry.fingerprint ≠ old.fingerprint := by
        rw [fingerprint]
        rw [LocalStore.upToDate, LocalStore.recordOf, here] at stale
        simpa [eq_comm] using stale
      apply stays
      refine ⟨old, SortedMap.mem_values.mpr ⟨_, before⟩, held.1, held.2, site, present,
        reporting.scans site scans, ours.symm, entry, found, placed.symm, moved, read, ?_, elsewhere⟩
      rw [ours, placed, ← reporting.origins.reading, reading]
  | dropUnseen present => exact reporting.retain fun _ _ _ _ => rfl
  | @enumerated site present =>
      refine ⟨reporting.keyed, reporting.origins.trans (.of_repos rfl), ?_, reporting.unreported⟩
      intro other scans
      apply reporting.scans
      by_cases kind : other.kind = .db
      · rw [scans_db kind] at scans ⊢
        exact ⟨fun stored => scans.1 (enumerated_stored stored), scans.2⟩
      · exact scans_files kind
  | failed message =>
      exact ⟨reporting.keyed, reporting.origins.trans (.of_repos rfl), reporting.scans,
        reporting.unreported⟩
  | dropUnowned =>
      apply reporting.retain
      intro key record stored _
      have place : key = sourceKey record.harness record.source :=
        reporting.keyed (key, record) (SortedMap.get?_eq_some_iff.mp stored)
      rw [place, splitOnce_sourceKey]
      rfl
  | resolved cwd =>
      have kept := resolveRepo_kept machine store cwd
      refine ⟨?_, reporting.origins.trans (resolveRepo_same machine store cwd), ?_, ?_⟩
      · unfold Keyed
        rw [kept.1]
        exact reporting.keyed
      · intro site scans
        apply reporting.scans
        rw [← scans]
        unfold LocalStore.scans
        rw [kept.2]
      · intro unreported key
        rw [resolveRepo_report] at unreported
        rw [← reporting.unreported unreported key]
        unfold LocalStore.indexedAt
        rw [kept.1]
  | @retry key record stored pending =>
      apply reporting.reload
      intro _ _ _ _
      have place := reporting.keyed (key, record) (SortedMap.get?_eq_some_iff.mp stored)
      rw [LocalStore.indexedAt, ← place, stored]
      apply indexed_eq_none
      intro ours
      rw [pending] at ours
      cases ours.1

theorem diff_reporting (keyed : Keyed initial) (stays : ¬ initial.Displaces machine repoKey) :
    Reporting machine repoKey initial (initial.diff machine) := by
  have start : Reporting machine repoKey initial initial.opened :=
    ⟨keyed, .of_repos rfl, fun _ scans => scans, fun _ _ => rfl⟩
  have changes := diff_changes machine keyed
  generalize initial.diff machine = final at changes ⊢
  induction changes with
  | refl => exact start
  | tail _ change ih => exact ih.step keyed stays change

/-- From every reachable state, a diff that displaces no ready record of a repository
reports the repository when its ready records have changed. -/
theorem diff_reports_changed {world : StoreWorld} (run : StoreRun world) (machine : Machine)
    (repoKey : String) (stays : ¬ world.store.Displaces machine repoKey)
    (changed : (world.store.diff machine).ready repoKey ≠ world.store.ready repoKey) :
    repoKey ∈ (world.store.diff machine).report.changedRepos := by
  have reporting := diff_reporting (storeRun_keyed run) stays
  by_contra unreported
  exact changed (ready_eq (reporting.unreported unreported))

end Diff

section Moved

attribute [local instance] HarnessNames.snakeCase DocumentCodec.padded

/-- A session that was read in one clone. -/
def readOnce : StoreWorld where
  store := LocalStore.start.diff (oneSession 1 "/a")
  file := none
  seen := [oneSession 1 "/a"]

theorem readOnce_run : StoreRun readOnce := by
  have taken : storeStep .start (.diff (oneSession 1 "/a")) = some readOnce := rfl
  exact .tail .refl trivial taken

theorem mem_ready {store : LocalStore} {repoKey : String} {indexed : Indexed} :
    indexed ∈ store.ready repoKey ↔ indexed ∈ store.records.filterMap (·.indexed repoKey) :=
  List.mem_filterMap.symm

theorem readOnce_ready {machine : Machine} {repoKey : String}
    (listed : (readOnce.store.records.filterMap (·.indexed repoKey)).length ≠
      ((readOnce.store.diff machine).records.filterMap (·.indexed repoKey)).length)
    (emptied : ((readOnce.store.diff machine).records.filterMap (·.indexed repoKey)).length = 0) :
    (readOnce.store.diff machine).ready repoKey ≠ readOnce.store.ready repoKey := by
  intro same
  rw [emptied] at listed
  obtain ⟨indexed, member⟩ := List.exists_mem_of_length_pos (Nat.pos_of_ne_zero listed)
  have after := mem_ready.mp (same ▸ mem_ready.mpr member)
  rw [List.length_eq_zero_iff.mp emptied] at after
  cases after

/-- The session file is deleted: its repository is reported. -/
theorem readOnce_deleted : "https://github.com/a" ∈
    (readOnce.store.diff { oneSession 1 "/a" with listing := fun _ => [] }).report.changedRepos := by
  apply diff_reports_changed readOnce_run _ _ _ (readOnce_ready (by decide +kernel) (by decide +kernel))
  intro displaced
  obtain ⟨_, _, _, _, site, present, _, _, entry, found, _⟩ := displaced
  have all : ∀ site ∈ sites { oneSession 1 "/a" with listing := fun _ => [] },
      site.found { oneSession 1 "/a" with listing := fun _ => [] } = [] := by
    decide +kernel
  rw [all site present] at found
  cases found

/-- The session is read again, now in another clone: the first one is not reported. -/
theorem readOnce_moved : ¬ ∀ (world : StoreWorld) (_ : StoreRun world) (machine : Machine)
    (repoKey : String), (world.store.diff machine).ready repoKey ≠ world.store.ready repoKey →
      repoKey ∈ (world.store.diff machine).report.changedRepos := by
  intro reports
  have reported := reports readOnce readOnce_run (oneSession 2 "/b") "https://github.com/a"
    (readOnce_ready (by decide +kernel) (by decide +kernel))
  revert reported
  decide +kernel

end Moved

end AgentTranscript
