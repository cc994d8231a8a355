import AgentTranscript.Local.StoreProperties

/-! What one diff makes of the records, site by site. -/

set_option autoImplicit false

namespace AgentTranscript

section Enumeration

variable (machine : Machine)

section

variable {machine} {site : Site}

theorem foundFiles_below [DocumentCodec] : ∀ entry ∈ foundFiles machine site,
    startsWith entry.source site.path = true ∧ pathStartsWith entry.source site.path = true := by
  intro entry member
  obtain ⟨row, -, rfl⟩ := List.mem_map.mp member
  exact ⟨startsWith_joinRel site.path row.rel, pathStartsWith_joinRel site.path row.rel⟩

theorem foundDirs_below [DocumentCodec] : ∀ entry ∈ foundDirs machine site,
    startsWith entry.source site.path = true ∧ pathStartsWith entry.source site.path = true := by
  intro entry member
  obtain ⟨dir, -, rfl⟩ := List.mem_map.mp member
  exact ⟨startsWith_joinRel site.path dir, pathStartsWith_joinRel site.path dir⟩

theorem discover_below [HarnessNames] (kind : site.kind = .db) {found : List Discovery}
    (discovered : site.discover machine = .ok found) :
    ∀ entry ∈ found, startsWith entry.source (site.path ++ "\n") = true := by
  unfold Site.discover at discovered
  rw [kind] at discovered
  obtain ⟨listed, -, shape⟩ := Loop.bind_ok discovered
  cases shape
  intro entry member
  obtain ⟨row, -, rfl⟩ := List.mem_map.mp member
  simp only [Site.sourcePrefix, kind]
  exact startsWith_append _ _

end

variable [HarnessNames] [DocumentCodec]

def Site.enumerated (site : Site) : List String :=
  match site.kind with
  | .files _ _ => (foundFiles machine site).map (·.source)
  | .sessionDirs _ => (foundDirs machine site).map (·.source)
  | .grokBotDirs => (foundDirs machine site).map (·.source)
  | .db =>
      match site.discover machine with
      | .ok found => found.map (·.source)
      | .error _ => []

/-- Whether a diff looks at the sources of a site: a database is left out while its
fingerprint is the stored one, and when it cannot be enumerated. -/
def LocalStore.scans (store : LocalStore) (site : Site) : Bool :=
  match site.kind with
  | .db => store.state.dbFingerprints.get? site.path ≠ some (dbFingerprint machine site.path) &&
      (site.discover machine).isOk
  | _ => true

def Site.Covers (site : Site) (harness : HarnessId) (source : String) : Prop :=
  harness = site.harness ∧ startsWith source site.path = true

variable {machine} {site : Site} {source : String}

theorem owns_enumerated (member : source ∈ site.enumerated machine) :
    site.owns source = true ∧ startsWith source site.path = true := by
  have files : ∀ found : List Found, (∀ entry ∈ found, startsWith entry.source site.path = true ∧
      pathStartsWith entry.source site.path = true) → source ∈ found.map (·.source) →
      pathStartsWith source site.path = true ∧ startsWith source site.path = true := by
    intro found below listed
    obtain ⟨entry, among, rfl⟩ := List.mem_map.mp listed
    exact (below entry among).symm
  unfold Site.enumerated at member
  unfold Site.owns
  cases kind : site.kind with
  | files =>
      rw [kind] at member
      exact files _ foundFiles_below member
  | sessionDirs =>
      rw [kind] at member
      exact files _ foundDirs_below member
  | grokBotDirs =>
      rw [kind] at member
      exact files _ foundDirs_below member
  | db =>
      rw [kind] at member
      simp only [Site.sourcePrefix, kind]
      cases discovered : site.discover machine with
      | error => simp [discovered] at member
      | ok found =>
          simp only [discovered, List.mem_map] at member
          obtain ⟨entry, among, rfl⟩ := member
          have below := discover_below kind discovered entry among
          exact ⟨below, startsWith_of_append below⟩

end Enumeration

section Sites

variable [HarnessNames] [DocumentCodec] {machine : Machine}

structure SiteScan (machine : Machine) (site : Site) (before after : LocalStore) : Prop where
  scanned : before.scans machine site = true → ∀ harness source, site.Covers harness source →
    (after.Has harness source ↔ source ∈ site.enumerated machine ∧
      (before.Has harness source ∨ ¬ Transient machine harness source))
  skipped : before.scans machine site = false →
    ∀ harness source, after.Has harness source ↔ before.Has harness source
  apart : ∀ harness source, ¬ site.Covers harness source →
    (after.Has harness source ↔ before.Has harness source)
  keyed : Keyed before → Keyed after
  dbFingerprints : ∀ path, (site.kind = .db → path ≠ site.path) →
    after.state.dbFingerprints.get? path = before.state.dbFingerprints.get? path

theorem Keyed.scanFound {store : LocalStore} (keyed : Keyed store) (site : Site)
    (found : List Found) : Keyed (store.scanFound machine site found) :=
  ((considered machine store site found).keyed keyed).retain _ _

theorem scanFound_dbFingerprints (store : LocalStore) (site : Site) (found : List Found) :
    (store.scanFound machine site found).state.dbFingerprints = store.state.dbFingerprints :=
  (retain_dbFingerprints _ _ _).trans (considered machine store site found).dbFingerprints

theorem siteScan_found (store : LocalStore) {site : Site} {found : List Found}
    (below : ∀ entry ∈ found, startsWith entry.source site.path = true)
    (enumerated : site.enumerated machine = found.map (·.source))
    (scans : store.scans machine site = true) :
    SiteScan machine site store (store.scanFound machine site found) where
  scanned := by
    intro _ harness source covers
    rw [has_scanFound below, if_pos ⟨covers.1, covers.2⟩, enumerated]
  skipped := by
    intro idle
    rw [scans] at idle
    cases idle
  apart := by
    intro harness source uncovered
    unfold Site.Covers at uncovered
    rw [has_scanFound below, if_neg uncovered]
  keyed := fun keyed => keyed.scanFound site found
  dbFingerprints := by
    intro path _
    rw [scanFound_dbFingerprints]

theorem siteScan_idle (store : LocalStore) {site : Site}
    (idle : store.scans machine site = false) {after : LocalStore}
    (same : after.state = store.state) : SiteScan machine site store after where
  scanned := by
    intro scans
    rw [idle] at scans
    cases scans
  skipped := by
    intro _ harness source
    rw [LocalStore.Has, LocalStore.recordOf, same]
    rfl
  apart := by
    intro harness source _
    rw [LocalStore.Has, LocalStore.recordOf, same]
    rfl
  keyed := by
    unfold Keyed
    rw [same]
    exact id
  dbFingerprints := by
    intro path _
    rw [same]

theorem siteScan (machine : Machine) (store : LocalStore) (site : Site) :
    SiteScan machine site store (store.scanSite machine site) := by
  unfold LocalStore.scanSite
  cases kind : site.kind with
  | files =>
      exact siteScan_found store (fun entry member => (foundFiles_below entry member).1)
        (by simp [Site.enumerated, kind]) (by simp [LocalStore.scans, kind])
  | sessionDirs =>
      exact siteScan_found store (fun entry member => (foundDirs_below entry member).1)
        (by simp [Site.enumerated, kind]) (by simp [LocalStore.scans, kind])
  | grokBotDirs =>
      exact siteScan_found store (fun entry member => (foundDirs_below entry member).1)
        (by simp [Site.enumerated, kind]) (by simp [LocalStore.scans, kind])
  | db =>
      dsimp only
      unfold LocalStore.scanDb
      dsimp only
      by_cases stored : store.state.dbFingerprints.get? site.path =
          some (dbFingerprint machine site.path)
      · rw [if_pos stored]
        exact siteScan_idle store (by simp [LocalStore.scans, kind, stored]) rfl
      · rw [if_neg stored]
        cases discovered : site.discover machine with
        | error reason =>
            have idle : store.scans machine site = false := by
              simp [LocalStore.scans, kind, discovered, Except.isOk, Except.toBool]
            exact siteScan_idle store idle rfl
        | ok found =>
            have scans : store.scans machine site = true := by
              simp [LocalStore.scans, kind, discovered, stored, Except.isOk, Except.toBool]
            have below : ∀ entry ∈ found.map fun entry : Discovery =>
                (⟨entry.source, entry.fingerprint, none⟩ : Found),
                startsWith entry.source site.path = true := by
              intro entry member
              obtain ⟨row, among, rfl⟩ := List.mem_map.mp member
              exact startsWith_of_append (discover_below kind discovered row among)
            have scan := siteScan_found store below
              (by simp [Site.enumerated, kind, discovered]) scans
            refine ⟨scan.scanned, scan.skipped, scan.apart, scan.keyed, ?_⟩
            intro path other
            have kept := scan.dbFingerprints path other
            simpa [SortedMap.get?_insert, other kind] using kept

end Sites

section Layout

/-- No path of a site is a prefix of the path of another site of its harness. -/
def Apart (sites : List Site) : Prop :=
  sites.Pairwise fun left right => left.harness = right.harness →
    ¬ startsWith left.path right.path = true ∧ ¬ startsWith right.path left.path = true

instance (sites : List Site) : Decidable (Apart sites) := by
  unfold Apart
  infer_instance

def DistinctDbs (sites : List Site) : Prop :=
  sites.Pairwise fun left right => left.kind = .db → right.kind = .db → left.path ≠ right.path

instance (sites : List Site) : Decidable (DistinctDbs sites) := by
  unfold DistinctDbs
  infer_instance

variable {sites before after : List Site} {site other : Site} {harness : HarnessId}
  {source : String}

theorem Apart.uncovered (apart : Apart (before ++ site :: after))
    (covers : site.Covers harness source) : ∀ other ∈ before ++ after,
      ¬ other.Covers harness source := by
  intro other member covered
  obtain ⟨-, later, across⟩ := List.pairwise_append.mp apart
  have same : other.harness = site.harness := covered.1.symm.trans covers.1
  have separate : ¬ startsWith other.path site.path = true ∧
      ¬ startsWith site.path other.path = true := by
    rcases List.mem_append.mp member with earlier | rest
    · exact across other earlier site List.mem_cons_self same
    · exact ((List.pairwise_cons.mp later).1 other rest same.symm).symm
  rcases startsWith_or covered.2 covers.2 with below | above
  · exact separate.1 below
  · exact separate.2 above

theorem Apart.unique (apart : Apart sites) (member : site ∈ sites) (another : other ∈ sites)
    (covers : site.Covers harness source) (covered : other.Covers harness source) :
    other = site := by
  obtain ⟨before, after, rfl⟩ := List.append_of_mem member
  by_contra different
  apply apart.uncovered covers other _ covered
  simpa [different] using another

theorem DistinctDbs.earlier (distinct : DistinctDbs (before ++ site :: after))
    (db : site.kind = .db) : ∀ other ∈ before, other.kind = .db → site.path ≠ other.path := by
  intro other member kind same
  obtain ⟨-, -, across⟩ := List.pairwise_append.mp distinct
  exact across other member site List.mem_cons_self kind db same.symm

end Layout

section Diff

variable [HarnessNames] [DocumentCodec] {machine : Machine} {store : LocalStore}
  {present : List Site} {site : Site} {harness : HarnessId} {source : String}

/-- The first half of a diff: every site is scanned in turn. -/
def LocalStore.scanSites (machine : Machine) (store : LocalStore) (present : List Site) :
    LocalStore :=
  present.foldl (fun store site => store.scanSite machine site) store

theorem Keyed.scanSites (keyed : Keyed store) : Keyed (store.scanSites machine present) := by
  induction present generalizing store with
  | nil => exact keyed
  | cons site rest ih => exact ih ((siteScan machine store site).keyed keyed)

theorem scanSites_apart (uncovered : ∀ site ∈ present, ¬ site.Covers harness source) :
    (store.scanSites machine present).Has harness source ↔ store.Has harness source := by
  induction present generalizing store with
  | nil => rfl
  | cons site rest ih =>
      have first := (siteScan machine store site).apart harness source
        (uncovered site List.mem_cons_self)
      exact (ih fun other member => uncovered other (List.mem_cons_of_mem site member)).trans first

theorem scanSites_dbFingerprints {path : String}
    (other : ∀ site ∈ present, site.kind = .db → path ≠ site.path) :
    (store.scanSites machine present).state.dbFingerprints.get? path =
      store.state.dbFingerprints.get? path := by
  induction present generalizing store with
  | nil => rfl
  | cons site rest ih =>
      have first := (siteScan machine store site).dbFingerprints path
        (other site List.mem_cons_self)
      exact (ih fun later member => other later (List.mem_cons_of_mem site member)).trans first

/-- The records below a site are decided by the scan of that site. -/
theorem scanSites_covered (apart : Apart present) (distinct : DistinctDbs present)
    (member : site ∈ present) (covers : site.Covers harness source) :
    (store.scanSites machine present).Has harness source ↔
      if store.scans machine site then source ∈ site.enumerated machine ∧
        (store.Has harness source ∨ ¬ Transient machine harness source)
      else store.Has harness source := by
  obtain ⟨before, after, rfl⟩ := List.append_of_mem member
  have uncovered := apart.uncovered covers
  let reached := store.scanSites machine before
  have unread : reached.Has harness source ↔ store.Has harness source :=
    scanSites_apart fun other early => uncovered other (List.mem_append_left after early)
  have scans : reached.scans machine site = store.scans machine site := by
    unfold LocalStore.scans
    cases kind : site.kind with
    | db => rw [scanSites_dbFingerprints (distinct.earlier kind)]
    | files => rfl
    | sessionDirs => rfl
    | grokBotDirs => rfl
  have later : (store.scanSites machine (before ++ site :: after)).Has harness source ↔
      (reached.scanSite machine site).Has harness source := by
    unfold LocalStore.scanSites
    rw [List.foldl_append, List.foldl_cons]
    exact scanSites_apart fun other late => uncovered other (List.mem_append_right before late)
  have scan : SiteScan machine site reached _ := siteScan machine reached site
  rw [later]
  cases scanned : store.scans machine site with
  | true => rw [scan.scanned (scans.trans scanned) harness source covers, unread, if_pos rfl]
  | false =>
      rw [scan.skipped (scans.trans scanned) harness source, unread, if_neg Bool.false_ne_true]

theorem resolvePendingKey_kept (machine : Machine) (keyed : Keyed store) (key : String) :
    Keyed (store.resolvePendingKey machine key) ∧ ∀ harness source,
      (store.resolvePendingKey machine key).Has harness source ↔ store.Has harness source := by
  unfold LocalStore.resolvePendingKey
  split
  · exact ⟨keyed, fun _ _ => Iff.rfl⟩
  · rename_i record found
    have kept := (resolveRepo_kept machine store record.info.cwd).1
    have same : ∀ harness source, (store.resolveRepo machine record.info.cwd).2.Has harness source ↔
        store.Has harness source := by
      intro harness source
      rw [LocalStore.Has, LocalStore.recordOf, kept]
      rfl
    have resolved : Keyed (store.resolveRepo machine record.info.cwd).2 := by
      unfold Keyed
      rwa [kept]
    dsimp only
    split
    · refine ⟨resolved.reload, ?_⟩
      intro harness source
      rw [has_reload, same]
      constructor
      · intro given
        rcases given with old | ⟨⟨rfl, rfl⟩, -⟩
        · exact old
        · have place : key = sourceKey record.harness record.source :=
            keyed (key, record) (SortedMap.get?_eq_some_iff.mp found)
          refine ⟨record, ?_⟩
          rw [LocalStore.recordOf, ← place, found]
      · exact .inl
    · exact ⟨resolved, same⟩

theorem resolvePending_kept (keyed : Keyed store) :
    Keyed (store.resolvePending machine) ∧ ∀ harness source,
      (store.resolvePending machine).Has harness source ↔ store.Has harness source := by
  unfold LocalStore.resolvePending
  apply Loop.foldl_invariant (fun _ after => Keyed after ∧ ∀ harness source,
    after.Has harness source ↔ store.Has harness source)
  · exact ⟨keyed, fun _ _ => Iff.rfl⟩
  · intro _ key _ state _ given
    obtain ⟨preserved, same⟩ := given
    obtain ⟨next, kept⟩ := resolvePendingKey_kept machine preserved key
    exact ⟨next, fun harness source => (kept harness source).trans (same harness source)⟩

theorem Keyed.diff (keyed : Keyed store) : Keyed (store.diff machine) := by
  have start : Keyed { store with report := .default } := keyed
  exact (resolvePending_kept (start.scanSites.retain _ _)).1

/-- A source has a record after a diff if the scans left it one and a site owns it. -/
theorem has_diff (keyed : Keyed store) : (store.diff machine).Has harness source ↔
    (({ store with report := .default } : LocalStore).scanSites machine (sites machine)).Has
        harness source ∧
      ∃ site ∈ sites machine, site.harness = harness ∧ site.owns source = true := by
  have start : Keyed { store with report := .default } := keyed
  rw [← has_dropUnowned]
  exact (resolvePending_kept (start.scanSites.retain _ _)).2 harness source

end Diff

end AgentTranscript
