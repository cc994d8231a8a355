import AgentTranscript.Local.DiffProperties
import AgentTranscript.Local.Reading

/-! Which sources a diff reads, and what its scans make of the record of one source. -/

set_option autoImplicit false

namespace AgentTranscript

open Loop

section Definitions

variable [HarnessNames] [DocumentCodec] (machine : Machine)

/-- The sources of a site, as a diff finds them. -/
def Site.found (site : Site) : List Found :=
  match site.kind with
  | .files _ _ => foundFiles machine site
  | .sessionDirs _ => foundDirs machine site
  | .grokBotDirs => foundDirs machine site
  | .db =>
      match site.discover machine with
      | .ok found => found.map fun entry => ⟨entry.source, entry.fingerprint, none⟩
      | .error _ => []

def LocalStore.upToDate (store : LocalStore) (harness : HarnessId) (entry : Found) : Bool :=
  (store.recordOf harness entry.source).any fun record => record.fingerprint = entry.fingerprint

/-- The reads of a diff, in order: one for each source that it reloads. -/
abbrev SourceLoads := List (HarnessId × String)

def LocalStore.foundLoads (harness : HarnessId) : LocalStore → List Found → SourceLoads
  | _, [] => []
  | store, entry :: rest =>
      (if store.upToDate harness entry then [] else [(harness, entry.source)]) ++
        LocalStore.foundLoads harness (store.reconsider machine harness entry.source
          entry.fingerprint entry.updatedAt) rest

def LocalStore.siteLoads (store : LocalStore) (site : Site) : SourceLoads :=
  if store.scans machine site then store.foundLoads machine site.harness (site.found machine)
  else []

def LocalStore.sitesLoads : LocalStore → List Site → SourceLoads
  | _, [] => []
  | store, site :: rest =>
      store.siteLoads machine site ++ LocalStore.sitesLoads (store.scanSite machine site) rest

def LocalStore.retryLoads (store : LocalStore) (key : String) : SourceLoads :=
  match store.state.sources.get? key with
  | none => []
  | some record =>
      match store.origin machine record.info.cwd with
      | .key _ => [(record.harness, record.source)]
      | _ => []

def LocalStore.pendingLoads : LocalStore → List String → SourceLoads
  | _, [] => []
  | store, key :: rest =>
      store.retryLoads machine key ++
        LocalStore.pendingLoads (store.resolvePendingKey machine key) rest

def LocalStore.pendingKeys (store : LocalStore) : List String :=
  (store.state.sources.entries.filter fun entry => entry.2.state = .pending).map (·.1)

/-- The store before and after the scans of a diff. -/
def LocalStore.opened (store : LocalStore) : LocalStore :=
  { store with report := .default }

def LocalStore.scanned (store : LocalStore) : LocalStore :=
  (store.opened.scanSites machine (sites machine)).dropUnowned (sites machine)

def LocalStore.diffLoads (store : LocalStore) : SourceLoads :=
  store.opened.sitesLoads machine (sites machine) ++
    (store.scanned machine).pendingLoads machine (store.scanned machine).pendingKeys

/-- The databases that a diff tried to enumerate and could not. -/
def LocalStore.failedEnumerations : LocalStore → List Site → List Site
  | _, [] => []
  | store, site :: rest =>
      (if site.kind = .db ∧
          store.state.dbFingerprints.get? site.path ≠ some (dbFingerprint machine site.path) ∧
          (site.discover machine).isOk = false then [site] else []) ++
        LocalStore.failedEnumerations (store.scanSite machine site) rest

end Definitions

section Scan

variable [HarnessNames] [DocumentCodec] {machine : Machine} {store : LocalStore} {site : Site}

theorem diff_eq (machine : Machine) (store : LocalStore) :
    store.diff machine = (store.scanned machine).resolvePending machine := rfl

theorem found_sources (machine : Machine) (site : Site) :
    (site.found machine).map (·.source) = site.enumerated machine := by
  unfold Site.found Site.enumerated
  cases site.kind with
  | files => rfl
  | sessionDirs => rfl
  | grokBotDirs => rfl
  | db => cases site.discover machine <;> simp

theorem mem_enumerated {entry : Found} (member : entry ∈ site.found machine) :
    entry.source ∈ site.enumerated machine := by
  rw [← found_sources]
  exact List.mem_map_of_mem member

theorem scanSite_files (kind : site.kind ≠ .db) :
    store.scanSite machine site = store.scanFound machine site (site.found machine) := by
  unfold LocalStore.scanSite Site.found
  cases shape : site.kind with
  | db => exact absurd shape kind
  | files => rfl
  | sessionDirs => rfl
  | grokBotDirs => rfl

omit [DocumentCodec] in
theorem scans_files (kind : site.kind ≠ .db) : store.scans machine site = true := by
  unfold LocalStore.scans
  cases shape : site.kind with
  | db => exact absurd shape kind
  | files => rfl
  | sessionDirs => rfl
  | grokBotDirs => rfl

omit [DocumentCodec] in
theorem scans_db (kind : site.kind = .db) : store.scans machine site = true ↔
    store.state.dbFingerprints.get? site.path ≠ some (dbFingerprint machine site.path) ∧
      (site.discover machine).isOk = true := by
  unfold LocalStore.scans
  rw [kind]
  simp only [Bool.and_eq_true, decide_eq_true_eq]

/-- What the scan of a database makes of a store. -/
def LocalStore.enumerated (store : LocalStore) (machine : Machine) (path : String) : LocalStore :=
  { store with
    state := { store.state with
      dbFingerprints := store.state.dbFingerprints.insert path (dbFingerprint machine path) }
    dirty := true }

omit [HarnessNames] [DocumentCodec] in
/-- A database whose fingerprint is stored keeps it when another one is enumerated. -/
theorem enumerated_stored {path other : String}
    (stored : store.state.dbFingerprints.get? other = some (dbFingerprint machine other)) :
    (store.enumerated machine path).state.dbFingerprints.get? other =
      some (dbFingerprint machine other) := by
  rw [LocalStore.enumerated, SortedMap.get?_insert]
  split
  · rename_i same
    rw [same]
  · exact stored

theorem scanSite_db (machine : Machine) (store : LocalStore) (kind : site.kind = .db) :
    (store.scans machine site = true ∧ store.scanSite machine site =
        (store.scanFound machine site (site.found machine)).enumerated machine site.path) ∨
      (store.scans machine site = false ∧
        ((store.state.dbFingerprints.get? site.path = some (dbFingerprint machine site.path) ∧
            store.scanSite machine site = store) ∨
          (store.state.dbFingerprints.get? site.path ≠ some (dbFingerprint machine site.path) ∧
            (site.discover machine).isOk = false ∧
            ∃ message, store.scanSite machine site = store.fail message))) := by
  have scans := @scans_db _ machine store site kind
  have idle := scans.not
  rw [Bool.not_eq_true] at idle
  unfold LocalStore.scanSite Site.found
  rw [kind]
  dsimp only
  unfold LocalStore.scanDb
  dsimp only
  by_cases stored : store.state.dbFingerprints.get? site.path =
      some (dbFingerprint machine site.path)
  · rw [if_pos stored]
    exact .inr ⟨idle.mpr fun scans => scans.1 stored, .inl ⟨stored, rfl⟩⟩
  · rw [if_neg stored]
    cases discovered : site.discover machine with
    | error reason =>
        refine .inr ⟨idle.mpr fun scans => ?_, .inr ⟨stored, rfl, _, rfl⟩⟩
        rw [discovered] at scans
        cases scans.2
    | ok found =>
        refine .inl ⟨(scans_db kind).mpr ⟨stored, ?_⟩, rfl⟩
        rw [discovered]
        rfl

/-- A site that is scanned considers what it found; one that is not changes no record. -/
theorem scanSite_cases (machine : Machine) (store : LocalStore) (site : Site) :
    (store.scans machine site = true ∧ (store.scanSite machine site).state.sources =
        (store.scanFound machine site (site.found machine)).state.sources) ∨
      (store.scans machine site = false ∧ (store.scanSite machine site).state = store.state) := by
  by_cases kind : site.kind = .db
  · rcases scanSite_db machine store kind with ⟨scans, same⟩ | ⟨idle, ⟨-, same⟩ | ⟨-, -, message, same⟩⟩
    · exact .inl ⟨scans, by rw [same]; rfl⟩
    · exact .inr ⟨idle, by rw [same]⟩
    · exact .inr ⟨idle, by rw [same]; rfl⟩
  · exact .inl ⟨scans_files kind, by rw [scanSite_files kind]⟩

end Scan

section Source

instance (site : Site) (harness : HarnessId) (source : String) :
    Decidable (site.Covers harness source) := by
  unfold Site.Covers
  infer_instance

variable [HarnessNames] [DocumentCodec] {machine : Machine} {store : LocalStore} {site : Site}
  {found : List Found} {harness other : HarnessId} {source last : String}

theorem recordOf_reload (machine : Machine) (store : LocalStore) (harness : HarnessId)
    (source fingerprint : String) (updatedAt : Option DateTime) :
    (store.reload machine harness source fingerprint updatedAt).recordOf other last =
      if other = harness ∧ last = source then
        (store.reading machine harness source fingerprint updatedAt).or (store.recordOf other last)
      else store.recordOf other last := by
  have written := (reload_spec machine store harness source fingerprint updatedAt).sources
  unfold LocalStore.recordOf
  rw [written]
  cases store.reading machine harness source fingerprint updatedAt with
  | none => simp
  | some record => simp [SortedMap.get?_insert, sourceKey_inj]

theorem reconsider_eq (machine : Machine) (store : LocalStore) (harness : HarnessId)
    (entry : Found) :
    store.reconsider machine harness entry.source entry.fingerprint entry.updatedAt =
      if store.upToDate harness entry then store
      else store.reload machine harness entry.source entry.fingerprint entry.updatedAt := rfl

omit [DocumentCodec] in
theorem upToDate_congr {before after : LocalStore} {entry : Found}
    (same : after.recordOf harness entry.source = before.recordOf harness entry.source) :
    after.upToDate harness entry = before.upToDate harness entry := by
  rw [LocalStore.upToDate, same]
  rfl

def LocalStore.consider (machine : Machine) (store : LocalStore) (harness : HarnessId)
    (found : List Found) : LocalStore :=
  found.foldl (fun store entry =>
    store.reconsider machine harness entry.source entry.fingerprint entry.updatedAt) store

theorem consider_cons (machine : Machine) (store : LocalStore) (harness : HarnessId)
    (entry : Found) (rest : List Found) :
    store.consider machine harness (entry :: rest) = (store.reconsider machine harness entry.source
      entry.fingerprint entry.updatedAt).consider machine harness rest := rfl

/-- A source is read exactly when some entry for it differs from its record. -/
theorem mem_foundLoads : (other, source) ∈ store.foundLoads machine harness found ↔
    other = harness ∧ ∃ entry ∈ found, entry.source = source ∧
      store.upToDate harness entry = false := by
  induction found generalizing store with
  | nil => simp [LocalStore.foundLoads]
  | cons entry rest ih =>
      rw [LocalStore.foundLoads, List.mem_append, ih, reconsider_eq]
      cases known : store.upToDate harness entry with
      | true => simp [known]
      | false =>
          rw [if_neg Bool.false_ne_true, if_neg Bool.false_ne_true, List.mem_singleton,
            Prod.mk.injEq]
          by_cases here : source = entry.source
          · subst here
            constructor
            · intro given
              exact ⟨given.elim And.left And.left, entry, List.mem_cons_self, rfl, known⟩
            · intro given
              exact .inl ⟨given.1, rfl⟩
          · have elsewhere : ∀ later : Found, later.source = source →
                (store.reload machine harness entry.source entry.fingerprint
                  entry.updatedAt).upToDate harness later = store.upToDate harness later := by
              intro later same
              apply upToDate_congr
              rw [recordOf_reload, if_neg]
              exact fun both => here (same.symm.trans both.2)
            constructor
            · intro given
              rcases given with ⟨-, same⟩ | ⟨ours, later, member, same, stale⟩
              · exact absurd same here
              · exact ⟨ours, later, List.mem_cons_of_mem entry member, same,
                  (elsewhere later same).symm.trans stale⟩
            · intro given
              obtain ⟨ours, later, member, same, stale⟩ := given
              rcases List.mem_cons.mp member with rfl | among
              · exact absurd same.symm here
              · exact .inr ⟨ours, later, among, same, (elsewhere later same).trans stale⟩

theorem mem_siteLoads : (harness, source) ∈ store.siteLoads machine site ↔
    store.scans machine site = true ∧ harness = site.harness ∧
      ∃ entry ∈ site.found machine, entry.source = source ∧
        store.upToDate site.harness entry = false := by
  unfold LocalStore.siteLoads
  split
  · rename_i scans
    rw [mem_foundLoads]
    simp [scans]
  · rename_i idle
    simp [idle]

theorem siteLoads_enumerated (read : (harness, source) ∈ store.siteLoads machine site) :
    harness = site.harness ∧ source ∈ site.enumerated machine := by
  obtain ⟨-, ours, entry, member, rfl, -⟩ := mem_siteLoads.mp read
  exact ⟨ours, mem_enumerated member⟩

/-- Considering changes the record of a source only by reading it. -/
theorem recordOf_consider (kept : Transient machine other source ∨
    (other, source) ∉ store.foundLoads machine harness found) :
    (store.consider machine harness found).recordOf other source = store.recordOf other source := by
  induction found generalizing store with
  | nil => rfl
  | cons entry rest ih =>
      have first : (store.reconsider machine harness entry.source entry.fingerprint
          entry.updatedAt).recordOf other source = store.recordOf other source := by
        rw [reconsider_eq]
        split
        · rfl
        · rename_i stale
          rw [recordOf_reload]
          split
          · rename_i here
            obtain ⟨rfl, rfl⟩ := here
            rcases kept with transient | unread
            · rw [reading_eq_none.mpr transient, Option.none_or]
            · exact absurd (mem_foundLoads.mpr ⟨rfl, entry, List.mem_cons_self, rfl,
                by simpa using stale⟩) unread
          · rfl
      refine (ih ?_).trans first
      rcases kept with transient | unread
      · exact .inl transient
      · rw [LocalStore.foundLoads, List.mem_append, not_or] at unread
        exact .inr unread.2

omit [DocumentCodec] in
theorem recordOf_dropUnseen {root : String} {seen : List String} :
    (store.dropUnseen harness (some root) seen).recordOf other source =
      if other = harness ∧ startsWith source root = true ∧ sourceKey other source ∉ seen then none
      else store.recordOf other source := by
  have constant : ∀ (value : Option SourceRecord) (keep : Bool),
      value.filter (fun _ => keep) = if keep then value else none := by
    intro value keep
    cases value <;> cases keep <;> rfl
  simp only [LocalStore.recordOf, LocalStore.dropUnseen, retain_sources, stripPrefix_sourceKey]
  by_cases same : other = harness
  · subst same
    cases below : startsWith source root with
    | false => simp [constant, below]
    | true =>
        by_cases seen : sourceKey other source ∈ seen
        · simp [constant, seen]
        · simp [constant, below, seen]
  · simp [constant, same]

theorem recordOf_scanSite (kept : Transient machine harness source ∨
    (harness, source) ∉ store.siteLoads machine site) :
    (store.scanSite machine site).recordOf harness source =
      if store.scans machine site = true ∧ site.Covers harness source ∧
          source ∉ site.enumerated machine then none
      else store.recordOf harness source := by
  obtain ⟨scans, same⟩ | ⟨idle, same⟩ := scanSite_cases machine store site
  · have seen : sourceKey harness source ∈
        ((site.found machine).map fun entry => sourceKey site.harness entry.source) ↔
          harness = site.harness ∧ source ∈ site.enumerated machine := by
      simp only [← found_sources, List.mem_map, sourceKey_inj]
      constructor
      · intro given
        obtain ⟨entry, among, rfl, rfl⟩ := given
        exact ⟨rfl, entry, among, rfl⟩
      · intro given
        obtain ⟨rfl, entry, among, rfl⟩ := given
        exact ⟨entry, among, rfl, rfl⟩
    have considered : (store.consider machine site.harness (site.found machine)).recordOf harness
        source = store.recordOf harness source := by
      apply recordOf_consider
      rwa [LocalStore.siteLoads, if_pos scans] at kept
    have dropped : (store.scanSite machine site).recordOf harness source =
        ((store.consider machine site.harness (site.found machine)).dropUnseen site.harness
          (some site.path) ((site.found machine).map fun entry =>
            sourceKey site.harness entry.source)).recordOf harness source := by
      unfold LocalStore.recordOf
      rw [same]
      rfl
    rw [dropped, recordOf_dropUnseen, considered]
    apply if_congr _ rfl rfl
    unfold Site.Covers
    rw [seen, not_and]
    constructor
    · intro given
      obtain ⟨rfl, below, unlisted⟩ := given
      exact ⟨scans, ⟨rfl, below⟩, unlisted rfl⟩
    · intro given
      obtain ⟨-, ⟨rfl, below⟩, unlisted⟩ := given
      exact ⟨rfl, below, fun _ => unlisted⟩
  · rw [LocalStore.recordOf, same, if_neg]
    · rfl
    · exact fun given => Bool.false_ne_true (idle.symm.trans given.1)

/-- A site changes nothing of the sources that are not below its path. -/
theorem recordOf_scanSite_apart (uncovered : ¬ site.Covers harness source) :
    (store.scanSite machine site).recordOf harness source = store.recordOf harness source := by
  have unread : (harness, source) ∉ store.siteLoads machine site := by
    intro read
    obtain ⟨ours, listed⟩ := siteLoads_enumerated read
    exact uncovered ⟨ours, (owns_enumerated listed).2⟩
  rw [recordOf_scanSite (.inr unread), if_neg]
  exact fun dropped => uncovered dropped.2.1

end Source

section Count

variable [HarnessNames] [DocumentCodec] {machine : Machine} {store : LocalStore} {site : Site}

/-- How many of the reads gave a body. -/
def SourceLoads.bodies (machine : Machine) (loads : SourceLoads) : Nat :=
  loads.countP fun load => (machine.load load.1 load.2).isOk

omit [DocumentCodec] in
theorem bodies_append (machine : Machine) (first second : SourceLoads) :
    SourceLoads.bodies machine (first ++ second) =
      SourceLoads.bodies machine first + SourceLoads.bodies machine second :=
  List.countP_append

omit [DocumentCodec] in
theorem bodies_singleton (machine : Machine) (harness : HarnessId) (source : String) :
    SourceLoads.bodies machine [(harness, source)] =
      if (machine.load harness source).isOk then 1 else 0 := by
  simp [SourceLoads.bodies, List.countP_singleton]

theorem consider_loaded (harness : HarnessId) (found : List Found) :
    (store.consider machine harness found).report.loaded = store.report.loaded +
      SourceLoads.bodies machine (store.foundLoads machine harness found) := by
  induction found generalizing store with
  | nil => rfl
  | cons entry rest ih =>
      rw [consider_cons, ih, LocalStore.foundLoads, bodies_append, ← Nat.add_assoc]
      congr 1
      rw [reconsider_eq]
      split
      · rfl
      · rw [(reload_spec machine store _ _ _ _).loaded, bodies_singleton]

omit [HarnessNames] [DocumentCodec] in
theorem retain_loaded (store : LocalStore) (keep noted : String → SourceRecord → Bool) :
    (store.retain keep noted).report.loaded = store.report.loaded := by
  unfold LocalStore.retain
  dsimp only
  split <;> rfl

theorem scanFound_loaded (scans : store.scans machine site = true) :
    (store.scanFound machine site (site.found machine)).report.loaded =
      store.report.loaded + SourceLoads.bodies machine (store.siteLoads machine site) := by
  rw [LocalStore.siteLoads, if_pos scans]
  exact (retain_loaded _ _ _).trans (consider_loaded _ _)

theorem scanSite_loaded (machine : Machine) (store : LocalStore) (site : Site) :
    (store.scanSite machine site).report.loaded =
      store.report.loaded + SourceLoads.bodies machine (store.siteLoads machine site) := by
  by_cases kind : site.kind = .db
  · rcases scanSite_db machine store kind with
      ⟨scans, same⟩ | ⟨idle, ⟨-, same⟩ | ⟨-, -, message, same⟩⟩
    · rw [same]
      exact scanFound_loaded scans
    · rw [same, LocalStore.siteLoads, if_neg (Bool.eq_false_iff.mp idle)]
      rfl
    · rw [same, LocalStore.siteLoads, if_neg (Bool.eq_false_iff.mp idle)]
      rfl
  · rw [scanSite_files kind]
    exact scanFound_loaded (scans_files kind)

theorem scanSites_loaded (present : List Site) :
    (store.scanSites machine present).report.loaded =
      store.report.loaded + SourceLoads.bodies machine (store.sitesLoads machine present) := by
  induction present generalizing store with
  | nil => rfl
  | cons site rest ih =>
      rw [LocalStore.sitesLoads, bodies_append, ← Nat.add_assoc, ← scanSite_loaded]
      exact ih

theorem resolvePendingKey_loaded (machine : Machine) (store : LocalStore) (key : String) :
    (store.resolvePendingKey machine key).report.loaded =
      store.report.loaded + SourceLoads.bodies machine (store.retryLoads machine key) := by
  unfold LocalStore.resolvePendingKey LocalStore.retryLoads LocalStore.origin
  cases store.state.sources.get? key with
  | none => rfl
  | some record =>
      have quiet := resolveRepo_report machine store record.info.cwd
      dsimp only
      cases (store.resolveRepo machine record.info.cwd).1 with
      | key repoKey => rw [(reload_spec machine _ _ _ _ _).loaded, quiet, bodies_singleton]
      | missingCwd => exact congrArg Report.loaded quiet
      | unresolved reason => exact congrArg Report.loaded quiet

theorem pendingLoads_loaded (keys : List String) :
    (keys.foldl (fun store key => store.resolvePendingKey machine key) store).report.loaded =
      store.report.loaded + SourceLoads.bodies machine (store.pendingLoads machine keys) := by
  induction keys generalizing store with
  | nil => rfl
  | cons key rest ih =>
      rw [List.foldl_cons, ih, LocalStore.pendingLoads, bodies_append, ← Nat.add_assoc,
        resolvePendingKey_loaded]

/-- The reads of a diff are what its report counts. -/
theorem diff_loaded (machine : Machine) (store : LocalStore) : (store.diff machine).report.loaded =
    SourceLoads.bodies machine (store.diffLoads machine) := by
  have scanned : (store.scanned machine).report.loaded =
      SourceLoads.bodies machine (store.opened.sitesLoads machine (sites machine)) := by
    rw [LocalStore.scanned, LocalStore.dropUnowned, retain_loaded, scanSites_loaded]
    exact Nat.zero_add _
  rw [LocalStore.diffLoads, bodies_append, ← scanned]
  exact pendingLoads_loaded _

end Count

end AgentTranscript
