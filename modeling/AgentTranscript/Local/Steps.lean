import AgentTranscript.Library.Transition
import AgentTranscript.Local.Loads

/-! A diff as a sequence of small steps, and the runs of the store it is part of. -/

set_option autoImplicit false

namespace AgentTranscript

open Relation

section Steps

variable [HarnessNames] [DocumentCodec]

/-- What a diff does to its store, one change at a time. -/
inductive DiffChange (machine : Machine) (store : LocalStore) : LocalStore → Prop where
  | read {site : Site} {entry : Found} (present : site ∈ sites machine)
      (scans : store.scans machine site = true) (found : entry ∈ site.found machine)
      (stale : store.upToDate site.harness entry = false) :
      DiffChange machine store (store.reload machine site.harness entry.source entry.fingerprint
        entry.updatedAt)
  | dropUnseen {site : Site} (present : site ∈ sites machine) :
      DiffChange machine store (store.dropUnseen site.harness (some site.path)
        ((site.found machine).map fun entry => sourceKey site.harness entry.source))
  | enumerated {site : Site} (present : site ∈ sites machine) :
      DiffChange machine store (store.enumerated machine site.path)
  | failed (message : String) : DiffChange machine store (store.fail message)
  | dropUnowned : DiffChange machine store (store.dropUnowned (sites machine))
  | resolved (cwd : Option String) : DiffChange machine store (store.resolveRepo machine cwd).2
  | retry {key : String} {record : SourceRecord}
      (found : store.state.sources.get? key = some record) (pending : record.state = .pending) :
      DiffChange machine store (store.reload machine record.harness record.source
        record.fingerprint record.freshness.updatedAt)

variable {machine : Machine} {store : LocalStore} {site : Site}

theorem consider_changes {found : List Found} (present : site ∈ sites machine)
    (scans : store.scans machine site = true) (listed : ∀ entry ∈ found, entry ∈ site.found machine) :
    ReflTransGen (DiffChange machine) store (store.consider machine site.harness found) := by
  induction found generalizing store with
  | nil => exact .refl
  | cons entry rest ih =>
      have later : ∀ other ∈ rest, other ∈ site.found machine :=
        fun other member => listed other (List.mem_cons_of_mem entry member)
      have kept := (reconsider_kept machine store site.harness entry.source entry.fingerprint
        entry.updatedAt).1
      have still : (store.reconsider machine site.harness entry.source entry.fingerprint
          entry.updatedAt).scans machine site = true := by
        rw [← scans]
        unfold LocalStore.scans
        rw [kept]
      refine .trans ?_ (ih still later)
      dsimp only
      rw [reconsider_eq]
      cases known : store.upToDate site.harness entry with
      | true => exact .refl
      | false => exact .single (.read present scans (listed entry List.mem_cons_self) known)

theorem scanFound_changes (present : site ∈ sites machine)
    (scans : store.scans machine site = true) :
    ReflTransGen (DiffChange machine) store (store.scanFound machine site (site.found machine)) :=
  (consider_changes present scans fun _ member => member).tail (.dropUnseen present)

theorem scanSite_changes (present : site ∈ sites machine) :
    ReflTransGen (DiffChange machine) store (store.scanSite machine site) := by
  by_cases kind : site.kind = .db
  · rcases scanSite_db machine store kind with ⟨scans, same⟩ | ⟨-, ⟨-, same⟩ | ⟨-, -, message, same⟩⟩
    · rw [same]
      exact (scanFound_changes present scans).tail (.enumerated present)
    · rw [same]
    · rw [same]
      exact .single (.failed message)
  · rw [scanSite_files kind]
    exact scanFound_changes present (scans_files kind)

theorem scanSites_changes {present : List Site} (among : ∀ site ∈ present, site ∈ sites machine) :
    ReflTransGen (DiffChange machine) store (store.scanSites machine present) := by
  induction present generalizing store with
  | nil => exact .refl
  | cons site rest ih =>
      exact .trans (scanSite_changes (among site List.mem_cons_self))
        (ih fun other member => among other (List.mem_cons_of_mem site member))

end Steps

section Pending

variable [HarnessNames] [DocumentCodec] {machine : Machine} {store : LocalStore}

theorem resolvePendingKey_other (machine : Machine) (keyed : Keyed store) {key other : String}
    (different : other ≠ key) :
    (store.resolvePendingKey machine key).state.sources.get? other =
      store.state.sources.get? other := by
  unfold LocalStore.resolvePendingKey
  split
  · rfl
  · rename_i record found
    have kept := (resolveRepo_kept machine store record.info.cwd).1
    have place : key = sourceKey record.harness record.source :=
      keyed (key, record) (SortedMap.get?_eq_some_iff.mp found)
    dsimp only
    split
    · rw [(reload_spec machine _ record.harness record.source record.fingerprint
        record.freshness.updatedAt).sources]
      cases LocalStore.reading machine _ record.harness record.source record.fingerprint
          record.freshness.updatedAt with
      | none => rw [Option.elim_none, kept]
      | some read =>
          rw [Option.elim_some, SortedMap.get?_insert, ← place, if_neg different, kept]
    · rw [kept]

omit [HarnessNames] [DocumentCodec] in
theorem pendingKeys_nodup (store : LocalStore) : store.pendingKeys.Nodup :=
  store.state.sources.keys_nodup.sublist (List.filter_sublist.map _)

/-- What a retry of each pending record preserves holds after all of them. -/
theorem resolvePending_invariant (keyed : Keyed store) (invariant : LocalStore → Prop)
    (start : invariant store)
    (next : ∀ state key record, Keyed state → state.state.sources.get? key = some record →
      record.state = .pending → invariant state → invariant (state.resolvePendingKey machine key)) :
    invariant (store.resolvePending machine) := by
  have distinct := pendingKeys_nodup store
  have listed : ∀ key ∈ store.pendingKeys, ∃ record,
      store.state.sources.get? key = some record ∧ record.state = .pending := by
    intro key member
    obtain ⟨entry, among, rfl⟩ := List.mem_map.mp member
    obtain ⟨stored, pending⟩ := List.mem_filter.mp among
    exact ⟨entry.2, SortedMap.get?_eq_some_iff.mpr stored, by simpa using pending⟩
  -- The keys that are still to come have the records they had at the start.
  have loop : Keyed (store.resolvePending machine) ∧ invariant (store.resolvePending machine) ∧
      ∀ key, key ∉ store.pendingKeys →
        (store.resolvePending machine).state.sources.get? key = store.state.sources.get? key := by
    apply Loop.foldl_invariant (fun seen state => Keyed state ∧ invariant state ∧
      ∀ key, key ∉ seen → state.state.sources.get? key = store.state.sources.get? key)
    · exact ⟨keyed, start, fun _ _ => rfl⟩
    · intro seen key rest state split given
      obtain ⟨preserved, holds, same⟩ := given
      have fresh : key ∉ seen := by
        unfold LocalStore.pendingKeys at distinct
        rw [split, List.nodup_append] at distinct
        exact fun early => distinct.2.2 key early key List.mem_cons_self rfl
      obtain ⟨record, found, pending⟩ := listed key (by
        unfold LocalStore.pendingKeys
        simp [split])
      refine ⟨(resolvePendingKey_kept machine preserved key).1,
        next state key record preserved ((same key fresh).trans found) pending holds, ?_⟩
      intro other absent
      rw [List.mem_append, List.mem_singleton, not_or] at absent
      rw [resolvePendingKey_other machine preserved absent.2, same other absent.1]
  exact loop.2.1

theorem resolvePending_changes (keyed : Keyed store) :
    ReflTransGen (DiffChange machine) store (store.resolvePending machine) := by
  apply resolvePending_invariant keyed (ReflTransGen (DiffChange machine) store) .refl
  intro state key record _ found pending changes
  refine changes.trans ?_
  have resolved : ReflTransGen (DiffChange machine) state
      (state.resolveRepo machine record.info.cwd).2 := .single (.resolved _)
  unfold LocalStore.resolvePendingKey
  rw [found]
  dsimp only
  split
  · have still : (state.resolveRepo machine record.info.cwd).2.state.sources.get? key =
        some record := by
      rw [(resolveRepo_kept machine state record.info.cwd).1, found]
    exact resolved.tail (.retry still pending)
  · exact resolved

theorem diff_changes (machine : Machine) (keyed : Keyed store) :
    ReflTransGen (DiffChange machine) store.opened (store.diff machine) := by
  have start : Keyed store.opened := keyed
  have scanned : Keyed (store.scanned machine) := start.scanSites.retain _ _
  refine .trans (.tail (scanSites_changes fun _ member => member) .dropUnowned) ?_
  exact resolvePending_changes scanned

end Pending

section Runs

variable [HarnessNames] [DocumentCodec]

/-- A store with its state file, and the machines it has looked at so far. -/
structure StoreWorld where
  store : LocalStore
  file : Option State
  seen : List Machine

def StoreWorld.start : StoreWorld where
  store := .start
  file := none
  seen := []

inductive StoreAction where
  | load
  | save (diskError : Option Error)
  | noteSwept (now : DateTime)
  | diff (machine : Machine)
  | resolveDirectory (machine : Machine) (dir : String)

def storeStep (world : StoreWorld) : StoreAction → Option StoreWorld
  | .load => some { world with store := .load world.file }
  | .save diskError =>
      let saved := world.store.saveIfDirty diskError world.file
      some { world with store := saved.2.1, file := saved.2.2 }
  | .noteSwept now => some { world with store := world.store.noteSwept now }
  | .diff machine => some { world with
      store := world.store.diff machine
      seen := machine :: world.seen }
  | .resolveDirectory machine dir => some { world with
      store := (world.store.resolveDirectory machine dir).2
      seen := machine :: world.seen }

abbrev StoreRun (world : StoreWorld) : Prop :=
  Transition.Run storeStep (fun _ _ => True) .start world

/-- What holds of every record of a state. -/
def RecordsAll (property : String → SourceRecord → Prop) (state : State) : Prop :=
  ∀ key record, state.sources.get? key = some record → property key record

section

omit [HarnessNames] [DocumentCodec]

theorem recordsAll_empty (property : String → SourceRecord → Prop) :
    RecordsAll property .empty := by
  intro key record found
  cases found

theorem recordsAll_load {property : String → SourceRecord → Prop} {file : Option State}
    (kept : ∀ state, file = some state → RecordsAll property state) :
    RecordsAll property (LocalStore.load file).state := by
  cases file with
  | none => exact recordsAll_empty property
  | some state =>
      simp only [LocalStore.load]
      split
      · exact kept state rfl
      · exact recordsAll_empty property

theorem recordsAll_save {property : String → SourceRecord → Prop} {store : LocalStore}
    {file : Option State} (held : RecordsAll property store.state)
    (kept : ∀ state, file = some state → RecordsAll property state) (diskError : Option Error) :
    RecordsAll property (store.saveIfDirty diskError file).2.1.state ∧
      ∀ state, (store.saveIfDirty diskError file).2.2 = some state → RecordsAll property state := by
  unfold LocalStore.saveIfDirty
  split
  · exact ⟨held, kept⟩
  · cases diskError with
    | some error => exact ⟨held, kept⟩
    | none =>
        refine ⟨held, ?_⟩
        intro state same
        cases same
        exact held

end

/-- What a diff preserves of the records, given the machines seen, holds in every run. -/
theorem storeRun_records (property : List Machine → String → SourceRecord → Prop)
    (later : ∀ seen machine key record, property seen key record →
      property (machine :: seen) key record)
    (diff : ∀ seen machine (store : LocalStore), RecordsAll (property (machine :: seen)) store.state →
      RecordsAll (property (machine :: seen)) (store.diff machine).state)
    {world : StoreWorld} (run : StoreRun world) :
    RecordsAll (property world.seen) world.store.state := by
  have both := run.invariant (fun world => RecordsAll (property world.seen) world.store.state ∧
    ∀ state, world.file = some state → RecordsAll (property world.seen) state)
    ⟨recordsAll_empty _, fun state given => by cases given⟩ (by
      intro current action next given _ taken
      obtain ⟨held, kept⟩ := given
      have grown : ∀ machine state, RecordsAll (property current.seen) state →
          RecordsAll (property (machine :: current.seen)) state :=
        fun machine state all key record found => later _ machine key record (all key record found)
      cases action with
      | load =>
          cases taken
          exact ⟨recordsAll_load kept, kept⟩
      | save diskError =>
          cases taken
          exact recordsAll_save held kept diskError
      | noteSwept now =>
          cases taken
          exact ⟨held, kept⟩
      | diff machine =>
          cases taken
          exact ⟨diff _ machine _ (grown machine _ held),
            fun state same => grown machine state (kept state same)⟩
      | resolveDirectory machine dir =>
          cases taken
          refine ⟨?_, fun state same => grown machine state (kept state same)⟩
          unfold RecordsAll
          rw [(resolveDirectory_kept machine current.store dir).1]
          exact grown machine _ held)
  exact both.1

omit [DocumentCodec] in
theorem keyed_iff {store : LocalStore} : Keyed store ↔
    RecordsAll (fun key record => key = sourceKey record.harness record.source) store.state := by
  constructor
  · intro keyed key record found
    exact keyed (key, record) (SortedMap.get?_eq_some_iff.mp found)
  · intro all entry member
    exact all entry.1 entry.2 (SortedMap.get?_eq_some_iff.mpr member)

theorem storeRun_keyed {world : StoreWorld} (run : StoreRun world) : Keyed world.store := by
  apply keyed_iff.mpr
  apply storeRun_records (fun _ key record => key = sourceKey record.harness record.source)
    (fun _ _ _ _ holds => holds) _ run
  intro _ machine store held
  exact keyed_iff.mp (keyed_iff.mpr held).diff

end Runs

section One

def sessionIn (cwd : String) : Transcript :=
  ⟨⟨"session", 0, none, some cwd, none, none, ""⟩, []⟩

/-- A machine with one session file, recorded in the clone at `cwd`. -/
def oneSession (mtimeNs : Nat) (cwd : String) : Machine where
  roots harness := if harness = .codex then ["/c"] else []
  listing _ := [⟨"s.jsonl", mtimeNs, 1⟩]
  stat _ := none
  discover _ _ := .ok []
  loadPath _ _ _ := .ok (sessionIn cwd)
  loadDb _ _ _ := .ok (sessionIn cwd)
  isDir _ := true
  originOf dir := .ok ("https://github.com" ++ dir)
  filePath _ := none
  now := 0

theorem oneSession_reads [HarnessNames] {mtimeNs : Nat} {cwd : String} {harness : HarnessId}
    {source : String} : ¬ Transient (oneSession mtimeNs cwd) harness source := by
  intro transient
  obtain ⟨message, failed⟩ := transient
  unfold Machine.load at failed
  split at failed
  · unfold Site.load at failed
    split at failed
    · split at failed <;> cases failed
    · cases failed
  · cases failed

end One

end AgentTranscript
