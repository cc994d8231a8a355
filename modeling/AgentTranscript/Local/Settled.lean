import AgentTranscript.Local.Steps

/-!
When a diff has nothing left to do. After a diff in which no read failed
transiently and every database could be enumerated, each listed source has a
record at its fingerprint and each pending record still waits for a repository.
-/

set_option autoImplicit false

namespace AgentTranscript

section Origins

/-- Where a working directory leaves a session, by what `git` answers. -/
def Machine.origin (machine : Machine) (cwd : Option String) : SessionRepo :=
  match cwd.filter fun cwd => !cwd.isEmpty with
  | none => .missingCwd
  | some cwd =>
      let dir := normalizeCwd machine cwd
      if machine.isDir dir then
        match machine.resolution dir with
        | .key key => .key key
        | .noOrigin => .unresolved s!"cannot resolve origin of {dir}"
        | .failed message => .unresolved message
      else .missingCwd

/-- The cache answers what `git` answers. -/
def OriginsAgree (machine : Machine) (store : LocalStore) : Prop :=
  ∀ dir, store.resolution machine dir = machine.resolution dir

/-- A later look at the machine: nothing a diff stats, lists or resolves has changed. What
reading a body would give is left open. -/
structure Unchanged (machine later : Machine) : Prop where
  roots : later.roots = machine.roots
  listing : later.listing = machine.listing
  stat : later.stat = machine.stat
  isDir : later.isDir = machine.isDir
  originOf : later.originOf = machine.originOf
  filePath : later.filePath = machine.filePath
  now : machine.now ≤ later.now

variable {machine later : Machine} {store after : LocalStore}

theorem OriginsAgree.same (agree : OriginsAgree machine store)
    (same : SameOrigins machine store after) : OriginsAgree machine after :=
  fun dir => (same dir).trans (agree dir)

theorem OriginsAgree.origin (agree : OriginsAgree machine store) (cwd : Option String) :
    store.origin machine cwd = machine.origin cwd := by
  unfold LocalStore.origin LocalStore.resolveRepo Machine.origin
  cases cwd.filter fun cwd => !cwd.isEmpty with
  | none => rfl
  | some cwd =>
      dsimp only
      rw [resolveDirectory_fst, agree]
      split
      · cases machine.resolution (normalizeCwd machine cwd) <;> rfl
      · rfl

theorem Unchanged.resolution (unchanged : Unchanged machine later) (dir : String) :
    later.resolution dir = machine.resolution dir := by
  rw [Machine.resolution, unchanged.originOf]
  rfl

/-- A failure that has expired stays expired. -/
theorem OriginsAgree.persist (agree : OriginsAgree machine store)
    (unchanged : Unchanged machine later) : OriginsAgree later store := by
  intro dir
  have now := agree dir
  rw [unchanged.resolution]
  unfold LocalStore.resolution LocalStore.cached at now ⊢
  cases known : store.state.repos.get? dir with
  | none => exact unchanged.resolution dir
  | some entry =>
      rw [known, Option.filter_some] at now
      rw [Option.filter_some]
      split
      · rename_i fresh
        have still : (entry.repoKey.isSome || decide (machine.now - entry.checkedAt < repoRetry)) =
            true := by
          rw [Bool.or_eq_true, decide_eq_true_eq] at fresh ⊢
          exact fresh.imp_right (lt_of_le_of_lt (sub_le_sub_right unchanged.now _))
        rwa [if_pos still] at now
      · exact unchanged.resolution dir

theorem Unchanged.origin (unchanged : Unchanged machine later) (cwd : Option String) :
    later.origin cwd = machine.origin cwd := by
  have dirs : ∀ cwd, normalizeCwd later cwd = normalizeCwd machine cwd := by
    intro cwd
    unfold normalizeCwd
    rw [unchanged.filePath]
  unfold Machine.origin
  simp only [dirs, unchanged.isDir, unchanged.resolution]

theorem Unchanged.sites (unchanged : Unchanged machine later) : sites later = sites machine := by
  unfold AgentTranscript.sites
  rw [unchanged.roots]

end Origins

section AtRest

variable [HarnessNames] [DocumentCodec] {machine later : Machine} {store : LocalStore}

def SourceRecord.Waits (machine : Machine) (record : SourceRecord) : Prop :=
  ∀ repoKey, machine.origin record.info.cwd ≠ .key repoKey

/-- Nothing is left to do for the sources of a site. -/
structure SiteSettled (machine : Machine) (store : LocalStore) (site : Site) : Prop where
  listed : site.kind ≠ .db → ∀ entry ∈ site.found machine,
    store.upToDate site.harness entry = true
  seen : site.kind ≠ .db → ∀ harness source, site.Covers harness source →
    store.Has harness source → source ∈ site.enumerated machine
  stored : site.kind = .db →
    store.state.dbFingerprints.get? site.path = some (dbFingerprint machine site.path)

structure AtRest (machine : Machine) (store : LocalStore) : Prop where
  keyed : Keyed store
  site : ∀ site ∈ sites machine, SiteSettled machine store site
  owned : ∀ harness source, store.Has harness source →
    ∃ site ∈ sites machine, site.harness = harness ∧ site.owns source = true
  waits : ∀ key record, store.state.sources.get? key = some record → record.state = .pending →
    record.Waits machine

omit [HarnessNames] [DocumentCodec] in
theorem retain_all {keep noted : String → SourceRecord → Bool}
    (kept : ∀ entry ∈ store.state.sources.entries, keep entry.1 entry.2 = true) :
    store.retain keep noted = store := by
  unfold LocalStore.retain
  dsimp only
  rw [if_pos]
  rw [List.isEmpty_iff, List.filter_eq_nil_iff]
  intro entry member
  simp [kept entry member]

theorem consider_settled (later : Machine) {harness : HarnessId} {found : List Found}
    (listed : ∀ entry ∈ found, store.upToDate harness entry = true) :
    store.consider later harness found = store ∧ store.foundLoads later harness found = [] := by
  induction found with
  | nil => exact ⟨rfl, rfl⟩
  | cons entry rest ih =>
      have known := listed entry List.mem_cons_self
      obtain ⟨same, none⟩ := ih fun other member => listed other (List.mem_cons_of_mem entry member)
      have kept : store.reconsider later harness entry.source entry.fingerprint entry.updatedAt =
          store := by
        rw [reconsider_eq, if_pos known]
      constructor
      · unfold LocalStore.consider at same ⊢
        rw [List.foldl_cons, kept, same]
      · rw [LocalStore.foundLoads, if_pos known, kept, none, List.append_nil]

theorem dropUnseen_settled {site : Site} (keyed : Keyed store)
    (seen : ∀ harness source, site.Covers harness source → store.Has harness source →
      source ∈ site.enumerated machine) :
    store.dropUnseen site.harness (some site.path)
      ((site.found machine).map fun entry => sourceKey site.harness entry.source) = store := by
  apply retain_all
  intro entry member
  have place := keyed entry member
  have has : store.Has entry.2.harness entry.2.source :=
    ⟨entry.2, SortedMap.get?_eq_some_iff.mpr (place ▸ member)⟩
  simp only [place, stripPrefix_sourceKey]
  split
  · rfl
  · rename_i rest stripped
    split at stripped
    · rename_i ours
      cases stripped
      cases below : startsWith entry.2.source site.path with
      | false => simp [below]
      | true =>
          have listed := seen _ _ ⟨ours, below⟩ has
          rw [← found_sources] at listed
          obtain ⟨found, among, same⟩ := List.mem_map.mp listed
          simp only [Bool.or_eq_true, decide_eq_true_eq]
          exact .inr (List.mem_map.mpr ⟨found, among, by rw [same, ours]⟩)
    · cases stripped

theorem Unchanged.found (unchanged : Unchanged machine later) {site : Site}
    (kind : site.kind ≠ .db) : site.found later = site.found machine := by
  have rows : ∀ root, walkTree later root = walkTree machine root := by
    intro root
    rw [walkTree, unchanged.listing]
    rfl
  unfold Site.found foundFiles foundDirs
  cases shape : site.kind with
  | db => exact absurd shape kind
  | files => simp only [rows]
  | sessionDirs => simp only [rows]
  | grokBotDirs => simp only [rows]

omit [HarnessNames] [DocumentCodec] in
theorem Unchanged.dbFingerprint (unchanged : Unchanged machine later) (path : String) :
    dbFingerprint later path = dbFingerprint machine path := by
  unfold AgentTranscript.dbFingerprint statFingerprint
  rw [unchanged.stat]

theorem scanSite_settled {site : Site} (keyed : Keyed store)
    (settled : SiteSettled machine store site) (unchanged : Unchanged machine later) :
    store.scanSite later site = store ∧ store.siteLoads later site = [] := by
  unfold LocalStore.siteLoads
  by_cases kind : site.kind = .db
  · have stored := settled.stored kind
    rw [← unchanged.dbFingerprint] at stored
    rcases scanSite_db later store kind with
      ⟨scans, -⟩ | ⟨idle, ⟨-, same⟩ | ⟨moved, -⟩⟩
    · exact absurd stored ((scans_db kind).mp scans).1
    · exact ⟨same, if_neg (Bool.eq_false_iff.mp idle)⟩
    · exact absurd stored moved
  · rw [scanSite_files kind, if_pos (scans_files kind), unchanged.found kind]
    obtain ⟨same, none⟩ := consider_settled later (settled.listed kind)
    refine ⟨?_, none⟩
    have dropped := dropUnseen_settled keyed (settled.seen kind)
    unfold LocalStore.consider at same
    rw [LocalStore.scanFound, same, dropped]

theorem scanSites_settled {present : List Site} (keyed : Keyed store)
    (settled : ∀ site ∈ present, SiteSettled machine store site)
    (unchanged : Unchanged machine later) :
    store.scanSites later present = store ∧ store.sitesLoads later present = [] := by
  induction present with
  | nil => exact ⟨rfl, rfl⟩
  | cons site rest ih =>
      obtain ⟨same, none⟩ := scanSite_settled keyed (settled site List.mem_cons_self) unchanged
      obtain ⟨kept, nothing⟩ := ih fun other member =>
        settled other (List.mem_cons_of_mem site member)
      constructor
      · unfold LocalStore.scanSites at kept ⊢
        rw [List.foldl_cons, same, kept]
      · rw [LocalStore.sitesLoads, same, none, nothing, List.append_nil]

omit [DocumentCodec] in
theorem dropUnowned_settled (keyed : Keyed store)
    (owned : ∀ harness source, store.Has harness source →
      ∃ site ∈ sites machine, site.harness = harness ∧ site.owns source = true) :
    store.dropUnowned (sites machine) = store := by
  apply retain_all
  intro entry member
  have place := keyed entry member
  obtain ⟨site, present, ours, owns⟩ := owned entry.2.harness entry.2.source
    ⟨entry.2, SortedMap.get?_eq_some_iff.mpr (place ▸ member)⟩
  simp only [place, splitOnce_sourceKey]
  exact List.any_eq_true.mpr ⟨site, present, by simp [ours, owns]⟩

/-- Retrying a pending record that waits asks `git` at most. -/
theorem resolvePendingKey_waits {key : String} (agree : OriginsAgree later store)
    (waits : ∀ record, store.state.sources.get? key = some record →
      ∀ repoKey, later.origin record.info.cwd ≠ .key repoKey) :
    (store.resolvePendingKey later key).state.sources = store.state.sources ∧
      (store.resolvePendingKey later key).report = store.report ∧
      OriginsAgree later (store.resolvePendingKey later key) ∧
      store.retryLoads later key = [] := by
  unfold LocalStore.resolvePendingKey LocalStore.retryLoads
  cases found : store.state.sources.get? key with
  | none => exact ⟨rfl, rfl, agree, rfl⟩
  | some record =>
      have origin := agree.origin record.info.cwd
      have still := waits record found
      rw [← origin] at still
      have resolved : (store.resolveRepo later record.info.cwd).2.state.sources =
          store.state.sources ∧ (store.resolveRepo later record.info.cwd).2.report = store.report ∧
            OriginsAgree later (store.resolveRepo later record.info.cwd).2 :=
        ⟨(resolveRepo_kept later store _).1, resolveRepo_report later store _,
          agree.same (resolveRepo_same later store _)⟩
      unfold LocalStore.origin at still ⊢
      dsimp only
      cases repo : (store.resolveRepo later record.info.cwd).1 with
      | key repoKey => exact absurd repo (still repoKey)
      | missingCwd => exact ⟨resolved.1, resolved.2.1, resolved.2.2, rfl⟩
      | unresolved reason => exact ⟨resolved.1, resolved.2.1, resolved.2.2, rfl⟩

theorem resolvePending_waits {keys : List String} (agree : OriginsAgree later store)
    (waits : ∀ key ∈ keys, ∀ record, store.state.sources.get? key = some record →
      ∀ repoKey, later.origin record.info.cwd ≠ .key repoKey) :
    (keys.foldl (fun store key => store.resolvePendingKey later key) store).state.sources =
        store.state.sources ∧
      (keys.foldl (fun store key => store.resolvePendingKey later key) store).report =
        store.report ∧
      store.pendingLoads later keys = [] := by
  induction keys generalizing store with
  | nil => exact ⟨rfl, rfl, rfl⟩
  | cons key rest ih =>
      obtain ⟨sources, report, next, none⟩ := resolvePendingKey_waits agree
        (waits key List.mem_cons_self)
      obtain ⟨kept, quiet, nothing⟩ := ih next (by
        intro other member
        rw [sources]
        exact waits other (List.mem_cons_of_mem key member))
      exact ⟨kept.trans sources, quiet.trans report,
        by rw [LocalStore.pendingLoads, none, nothing, List.append_nil]⟩

/-- A diff of a settled store reads nothing, reports nothing and changes no record. -/
theorem AtRest.diff (settled : AtRest machine store) (agree : OriginsAgree machine store)
    (unchanged : Unchanged machine later) :
    store.diffLoads later = [] ∧ (store.diff later).report = .default ∧
      (store.diff later).state.sources = store.state.sources := by
  have site : ∀ site ∈ sites machine, SiteSettled machine store.opened site :=
    fun site present => ⟨(settled.site site present).listed, (settled.site site present).seen,
      (settled.site site present).stored⟩
  have keyed : Keyed store.opened := settled.keyed
  obtain ⟨scanned, read⟩ := scanSites_settled keyed site unchanged
  have kept : store.scanned later = store.opened := by
    unfold LocalStore.scanned
    rw [unchanged.sites, scanned]
    exact dropUnowned_settled keyed settled.owned
  have waits : ∀ key ∈ store.opened.pendingKeys, ∀ record,
      store.opened.state.sources.get? key = some record →
        ∀ repoKey, later.origin record.info.cwd ≠ .key repoKey := by
    intro key member record found repoKey
    obtain ⟨entry, among, rfl⟩ := List.mem_map.mp member
    obtain ⟨stored, pending⟩ := List.mem_filter.mp among
    have same : some entry.2 = some record :=
      (SortedMap.get?_eq_some_iff.mpr stored).symm.trans found
    cases same
    rw [unchanged.origin]
    exact settled.waits entry.1 entry.2 found (by simpa using pending) repoKey
  have agreed : OriginsAgree later store.opened := (agree.persist unchanged).same (.of_repos rfl)
  obtain ⟨sources, report, retried⟩ := resolvePending_waits agreed waits
  refine ⟨?_, ?_, ?_⟩
  · rw [LocalStore.diffLoads, unchanged.sites, read, kept, retried, List.append_nil]
  · rw [diff_eq, kept]
    exact report
  · rw [diff_eq, kept]
    exact sources

end AtRest

end AgentTranscript
