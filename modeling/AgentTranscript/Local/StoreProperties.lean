import AgentTranscript.Library.Loop
import AgentTranscript.Local.Store

/-! Which sources have a record, after each operation of a diff. -/

set_option autoImplicit false

namespace AgentTranscript

open Loop

section Keys

variable [HarnessNames] {harness other : HarnessId} {source : String}

theorem splitOnce_sourceKey (harness : HarnessId) (source : String) :
    splitOnce (sourceKey harness source) '\n' = some (HarnessNames.asStr harness, source) :=
  splitOnce_append (HarnessNames.asStr_oneLine harness)

theorem sourceKey_inj {last : String} :
    sourceKey harness source = sourceKey other last ↔ harness = other ∧ source = last := by
  constructor
  · intro same
    have parts := congrArg (splitOnce · '\n') same
    simp only [splitOnce_sourceKey, Option.some.injEq, Prod.mk.injEq] at parts
    exact ⟨HarnessNames.asStr_injective parts.1, parts.2⟩
  · intro same
    rw [same.1, same.2]

theorem stripPrefix_sourceKey : stripPrefix (sourceKey harness source)
    (HarnessNames.asStr other ++ "\n") = if harness = other then some source else none := by
  split
  · rename_i same
    exact same ▸ stripPrefix_eq_some_iff.mpr rfl
  · rename_i different
    apply Option.eq_none_iff_forall_not_mem.mpr
    intro rest found
    have same : sourceKey harness source = sourceKey other rest := stripPrefix_eq_some_iff.mp found
    exact different (sourceKey_inj.mp same).1

end Keys

section Records

variable [HarnessNames]

def LocalStore.recordOf (store : LocalStore) (harness : HarnessId) (source : String) :
    Option SourceRecord :=
  store.state.sources.get? (sourceKey harness source)

def LocalStore.Has (store : LocalStore) (harness : HarnessId) (source : String) : Prop :=
  ∃ record, store.recordOf harness source = some record

/-- Every record is stored under its own harness and source. -/
def Keyed (store : LocalStore) : Prop :=
  ∀ entry ∈ store.state.sources.entries, entry.1 = sourceKey entry.2.harness entry.2.source

theorem Keyed.recordOf {store : LocalStore} (keyed : Keyed store) {harness : HarnessId}
    {source : String} {record : SourceRecord} (found : store.recordOf harness source = some record) :
    record.harness = harness ∧ record.source = source := by
  have same := keyed _ (SortedMap.get?_eq_some_iff.mp found)
  obtain ⟨ours, here⟩ := sourceKey_inj.mp same
  exact ⟨ours.symm, here.symm⟩

theorem Keyed.insert {store : LocalStore} (keyed : Keyed store) (record : SourceRecord) :
    Keyed (store.insert (sourceKey record.harness record.source) record) := by
  intro entry member
  rcases SortedMap.mem_insertEntry member with new | old
  · exact new ▸ rfl
  · exact keyed entry old

end Records

section Retain

theorem retain_sources (store : LocalStore) (keep noted : String → SourceRecord → Bool)
    (key : String) : (store.retain keep noted).state.sources.get? key =
      (store.state.sources.get? key).filter (keep key) := by
  unfold LocalStore.retain
  dsimp only
  split
  · rename_i none
    cases found : store.state.sources.get? key with
    | none => rfl
    | some record =>
        have kept : keep key record = true := by
          by_contra dropped
          have removed : (key, record) ∈ store.state.sources.entries.filter fun entry =>
              !keep entry.1 entry.2 :=
            List.mem_filter.mpr ⟨SortedMap.get?_eq_some_iff.mp found, by simpa using dropped⟩
          rw [List.isEmpty_iff.mp none] at removed
          cases removed
        rw [Option.filter_some, if_pos kept]
  · exact SortedMap.get?_retain _ _ _

theorem retain_entries (store : LocalStore) (keep noted : String → SourceRecord → Bool) :
    (store.retain keep noted).state.sources.entries ⊆ store.state.sources.entries := by
  unfold LocalStore.retain
  dsimp only
  split
  · exact List.Subset.refl _
  · exact List.filter_subset_self store.state.sources.entries

theorem retain_dbFingerprints (store : LocalStore) (keep noted : String → SourceRecord → Bool) :
    (store.retain keep noted).state.dbFingerprints = store.state.dbFingerprints := by
  unfold LocalStore.retain
  dsimp only
  split <;> rfl

theorem retain_repos (store : LocalStore) (keep noted : String → SourceRecord → Bool) :
    (store.retain keep noted).state.repos = store.state.repos := by
  unfold LocalStore.retain
  dsimp only
  split <;> rfl

variable [HarnessNames]

theorem has_dropUnseen {store : LocalStore} {harness other : HarnessId} {root source : String}
    {seen : List String} :
    (store.dropUnseen harness (some root) seen).Has other source ↔ store.Has other source ∧
      ¬ (other = harness ∧ startsWith source root = true ∧ sourceKey other source ∉ seen) := by
  simp only [LocalStore.Has, LocalStore.recordOf, LocalStore.dropUnseen, retain_sources,
    Option.filter_eq_some_iff, stripPrefix_sourceKey]
  by_cases same : other = harness <;> by_cases below : startsWith source root <;>
    simp [same, below]

theorem has_dropUnowned {store : LocalStore} {sites : List Site} {harness : HarnessId}
    {source : String} : (store.dropUnowned sites).Has harness source ↔
      store.Has harness source ∧ ∃ site ∈ sites, site.harness = harness ∧ site.owns source = true := by
  simp [LocalStore.Has, LocalStore.recordOf, LocalStore.dropUnowned, retain_sources,
    Option.filter_eq_some_iff, splitOnce_sourceKey, HarnessNames.asStr_injective.eq_iff]

theorem Keyed.retain {store : LocalStore} (keyed : Keyed store)
    (keep noted : String → SourceRecord → Bool) : Keyed (store.retain keep noted) :=
  fun entry member => keyed entry (retain_entries store keep noted member)

end Retain

section Reload

variable (machine : Machine)

theorem resolveDirectory_kept (store : LocalStore) (dir : String) :
    (store.resolveDirectory machine dir).2.state.sources = store.state.sources ∧
      (store.resolveDirectory machine dir).2.state.dbFingerprints = store.state.dbFingerprints := by
  unfold LocalStore.resolveDirectory
  dsimp only
  split <;> exact ⟨rfl, rfl⟩

theorem resolveRepo_kept (store : LocalStore) (cwd : Option String) :
    (store.resolveRepo machine cwd).2.state.sources = store.state.sources ∧
      (store.resolveRepo machine cwd).2.state.dbFingerprints = store.state.dbFingerprints := by
  have kept := resolveDirectory_kept machine store
  unfold LocalStore.resolveRepo
  split
  · exact ⟨rfl, rfl⟩
  · dsimp only
    split
    · split <;> exact kept _
    · exact ⟨rfl, rfl⟩

theorem noteReady_state (store : LocalStore) (record : SourceRecord) :
    (store.noteReady record).state = store.state := by
  unfold LocalStore.noteReady
  split <;> rfl

variable [HarnessNames]

theorem reportRepo_state (store : LocalStore) (harness : HarnessId) (source : String)
    (alreadyPending : Bool) (repo : SessionRepo) :
    (store.reportRepo harness source alreadyPending repo).state = store.state := by
  cases repo <;> unfold LocalStore.reportRepo <;> dsimp only [LocalStore.failSource] <;>
    first | rfl | (split <;> rfl)

variable [DocumentCodec]

/-- Whether reading a source failed in a way that leaves its record as it was. -/
def Transient (harness : HarnessId) (source : String) : Prop :=
  ∃ message, machine.load harness source = .error (.transient message)

/-- A reload fails transiently and changes no record, or writes the record of its source. -/
theorem reload_cases (store : LocalStore) (harness : HarnessId) (source fingerprint : String)
    (updatedAt : Option DateTime) :
    (store.reload machine harness source fingerprint updatedAt).state.dbFingerprints =
        store.state.dbFingerprints ∧
      (Transient machine harness source ∧
          (store.reload machine harness source fingerprint updatedAt).state.sources =
            store.state.sources ∨
        ¬ Transient machine harness source ∧ ∃ record, record.harness = harness ∧
          record.source = source ∧
          (store.reload machine harness source fingerprint updatedAt).state.sources =
            store.state.sources.insert (sourceKey harness source) record) := by
  unfold LocalStore.reload Transient
  cases loaded : machine.load harness source with
  | ok transcript =>
      have kept := resolveRepo_kept machine store (Info.of transcript.metadata).cwd
      dsimp only
      refine ⟨?_, .inr ⟨by simp, loadedRecord harness source fingerprint updatedAt transcript
        (store.resolveRepo machine (Info.of transcript.metadata).cwd).1, rfl, rfl, ?_⟩⟩
      · simp only [LocalStore.insert, noteReady_state]
        split <;> simp only [LocalStore.failSource, LocalStore.fail, reportRepo_state, kept]
      · simp only [LocalStore.insert, noteReady_state]
        split <;> simp only [LocalStore.failSource, LocalStore.fail, reportRepo_state, kept]
  | error failure =>
      cases failure with
      | transient message => exact ⟨rfl, .inl ⟨⟨message, rfl⟩, rfl⟩⟩
      | broken message =>
          exact ⟨rfl, .inr ⟨by simp, brokenRecord machine.now harness source fingerprint updatedAt,
            rfl, rfl, rfl⟩⟩

variable {machine} {store : LocalStore} {harness other : HarnessId}
  {source last fingerprint : String} {updatedAt : Option DateTime}

theorem has_reload : (store.reload machine harness source fingerprint updatedAt).Has other last ↔
    store.Has other last ∨ (other = harness ∧ last = source) ∧ ¬ Transient machine harness source := by
  obtain ⟨-, ⟨transient, same⟩ | ⟨lasting, record, rfl, rfl, written⟩⟩ :=
    reload_cases machine store harness source fingerprint updatedAt
  · simp [LocalStore.Has, LocalStore.recordOf, same, transient]
  · simp only [LocalStore.Has, LocalStore.recordOf, written, SortedMap.get?_insert, sourceKey_inj,
      lasting, not_false_eq_true, and_true]
    split <;> rename_i here <;> simp [here]

theorem Keyed.reload (keyed : Keyed store) :
    Keyed (store.reload machine harness source fingerprint updatedAt) := by
  obtain ⟨-, ⟨-, same⟩ | ⟨-, record, rfl, rfl, written⟩⟩ :=
    reload_cases machine store harness source fingerprint updatedAt
  · unfold Keyed
    rwa [same]
  · unfold Keyed
    rw [written]
    exact keyed.insert record

/-- A source with an unchanged record has a record, so both branches agree. -/
theorem has_reconsider :
    (store.reconsider machine harness source fingerprint updatedAt).Has other last ↔
      store.Has other last ∨ (other = harness ∧ last = source) ∧
        ¬ Transient machine harness source := by
  unfold LocalStore.reconsider
  split
  · rename_i unchanged
    obtain ⟨record, found, -⟩ := (Option.any_eq_true _ _).mp unchanged
    constructor
    · exact .inl
    · intro given
      rcases given with old | ⟨⟨rfl, rfl⟩, -⟩
      · exact old
      · exact ⟨record, found⟩
  · exact has_reload

theorem reconsider_kept (machine : Machine) (store : LocalStore) (harness : HarnessId)
    (source fingerprint : String) (updatedAt : Option DateTime) :
    (store.reconsider machine harness source fingerprint updatedAt).state.dbFingerprints =
        store.state.dbFingerprints ∧
      (Keyed store → Keyed (store.reconsider machine harness source fingerprint updatedAt)) := by
  unfold LocalStore.reconsider
  split
  · exact ⟨rfl, id⟩
  · exact ⟨(reload_cases machine store harness source fingerprint updatedAt).1, Keyed.reload⟩

end Reload

section Scan

variable [HarnessNames] [DocumentCodec] {machine : Machine} {store : LocalStore} {site : Site}
  {found : List Found} {harness : HarnessId} {source : String}

structure Considered (machine : Machine) (site : Site) (found : List Found)
    (before after : LocalStore) : Prop where
  has : ∀ harness source, after.Has harness source ↔ before.Has harness source ∨
    (harness = site.harness ∧ source ∈ found.map (·.source)) ∧ ¬ Transient machine harness source
  keyed : Keyed before → Keyed after
  dbFingerprints : after.state.dbFingerprints = before.state.dbFingerprints

theorem considered (machine : Machine) (store : LocalStore) (site : Site) (found : List Found) :
    Considered machine site found store (found.foldl (fun store entry =>
      store.reconsider machine site.harness entry.source entry.fingerprint entry.updatedAt) store) := by
  apply Loop.foldl_invariant (fun seen after => Considered machine site seen store after)
  · exact ⟨by simp, id, rfl⟩
  · intro seen entry rest state _ ih
    obtain ⟨same, keyed⟩ := reconsider_kept machine state site.harness entry.source
      entry.fingerprint entry.updatedAt
    refine ⟨?_, keyed ∘ ih.keyed, same.trans ih.dbFingerprints⟩
    intro harness source
    rw [has_reconsider, ih.has]
    simp only [List.map_append, List.map_cons, List.map_nil, List.mem_append, List.mem_singleton]
    constructor
    · intro given
      rcases given with (old | ⟨⟨ours, early⟩, lasting⟩) | ⟨⟨rfl, rfl⟩, lasting⟩
      · exact .inl old
      · exact .inr ⟨⟨ours, .inl early⟩, lasting⟩
      · exact .inr ⟨⟨rfl, .inr rfl⟩, lasting⟩
    · intro given
      rcases given with old | ⟨⟨rfl, early | rfl⟩, lasting⟩
      · exact .inl (.inl old)
      · exact .inl (.inr ⟨⟨rfl, early⟩, lasting⟩)
      · exact .inr ⟨⟨rfl, rfl⟩, lasting⟩

/-- Below the path of the site the records are those of the listing; elsewhere
nothing changes. -/
theorem has_scanFound (below : ∀ entry ∈ found, startsWith entry.source site.path = true) :
    (store.scanFound machine site found).Has harness source ↔
      if harness = site.harness ∧ startsWith source site.path = true then
        source ∈ found.map (·.source) ∧ (store.Has harness source ∨ ¬ Transient machine harness source)
      else store.Has harness source := by
  have listed : ∀ source ∈ found.map (·.source), startsWith source site.path = true := by
    intro source member
    obtain ⟨entry, among, rfl⟩ := List.mem_map.mp member
    exact below entry among
  have seen : sourceKey harness source ∈
      (found.map fun entry => sourceKey site.harness entry.source) ↔
        harness = site.harness ∧ source ∈ found.map (·.source) := by
    simp only [List.mem_map, sourceKey_inj]
    constructor
    · intro given
      obtain ⟨entry, among, rfl, rfl⟩ := given
      exact ⟨rfl, entry, among, rfl⟩
    · intro given
      obtain ⟨rfl, entry, among, rfl⟩ := given
      exact ⟨entry, among, rfl, rfl⟩
  unfold LocalStore.scanFound
  rw [has_dropUnseen, (considered machine store site found).has, seen]
  have apart := listed source
  split <;> tauto

end Scan

end AgentTranscript
