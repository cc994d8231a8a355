import AgentTranscript.Library.Transition
import AgentTranscript.Local.DiffProperties

/-!
Runs of diffs while sites appear, change and vanish. A database site whose
fingerprint is the stored one is not enumerated, so its records are right only
as long as nothing but a scan of that site took any of them away.
-/

set_option autoImplicit false

namespace AgentTranscript

/-- One record for each source that a present site enumerates, and no other. -/
structure Exact [HarnessNames] [DocumentCodec] (machine : Machine) (store : LocalStore) : Prop where
  enumerated : ∀ record ∈ store.records, ∃ site ∈ sites machine,
    site.harness = record.harness ∧ record.source ∈ site.enumerated machine
  recorded : ∀ site ∈ sites machine, ∀ source ∈ site.enumerated machine, ∃ record,
    store.records.filter (fun other => other.harness = site.harness && other.source = source) =
      [record]

/-- The store, and what each database site enumerated last: forgotten when the site
is missed by a diff, or when one of its sources was left without a record. -/
structure DiffWorld where
  store : LocalStore
  held : HarnessId → String → Option (List String)

def DiffWorld.start : DiffWorld where
  store := .start
  held _ _ := none

section Machine

theorem mem_siteTable {machine : Machine} {site : Site} (member : site ∈ sites machine) :
    (site.harness, site.kind) ∈ siteTable := by
  obtain ⟨entry, listed, among⟩ := List.mem_flatMap.mp member
  obtain ⟨path, -, rfl⟩ := List.mem_map.mp among
  exact listed

theorem sites_kind {machine : Machine} {site other : Site} (member : site ∈ sites machine)
    (another : other ∈ sites machine) (same : other.harness = site.harness) :
    other.kind = site.kind := by
  have functional : ∀ left ∈ siteTable, ∀ right ∈ siteTable, left.1 = right.1 →
      left.2 = right.2 := by
    decide
  exact functional _ (mem_siteTable another) _ (mem_siteTable member) same

theorem Site.owns_db {site : Site} (db : site.kind = .db) (source : String) :
    site.owns source = startsWith source (site.path ++ "\n") := by
  simp only [Site.owns, Site.sourcePrefix, db]

end Machine

section Step

variable [HarnessNames]

def LocalStore.leavesRecord (store : LocalStore) (machine : Machine) (harness : HarnessId)
    (source : String) : Bool :=
  (store.recordOf harness source).isSome ||
    match machine.load harness source with
    | .error (.transient _) => false
    | _ => true

theorem leavesRecord_iff {store : LocalStore} {machine : Machine} {harness : HarnessId}
    {source : String} : store.leavesRecord machine harness source = true ↔
      store.Has harness source ∨ ¬ Transient machine harness source := by
  unfold LocalStore.leavesRecord LocalStore.Has Transient
  rw [Bool.or_eq_true, Option.isSome_iff_exists]
  apply or_congr_right
  cases machine.load harness source with
  | ok => simp
  | error failure => cases failure <;> simp

/-- What holds of the records of a database site while its enumeration is held. -/
structure Sound (world : DiffWorld) : Prop where
  keyed : Keyed world.store
  held : ∀ harness path listed, world.held harness path = some listed →
    ∀ source, startsWith source (path ++ "\n") = true →
      (world.store.Has harness source ↔ source ∈ listed)

theorem sound_start : Sound .start where
  keyed := by
    intro entry member
    cases member
  held := by
    intro harness path listed held
    cases held

variable [DocumentCodec]

def DiffWorld.heldAfter (world : DiffWorld) (machine : Machine) (harness : HarnessId)
    (path : String) : Option (List String) :=
  match (sites machine).find? fun site =>
      site.kind = .db && site.harness = harness && site.path = path with
  | none => none
  | some site =>
      if world.store.scans machine site then
        if (site.enumerated machine).all (world.store.leavesRecord machine harness) then
          some (site.enumerated machine)
        else none
      else world.held harness path

def diffStep (world : DiffWorld) (machine : Machine) : Option DiffWorld :=
  some { store := world.store.diff machine, held := world.heldAfter machine }

/-- The layout of the present sites that every diff is given. -/
def Allowed (_ : DiffWorld) (machine : Machine) : Prop :=
  Apart (sites machine) ∧ DistinctDbs (sites machine)

instance (world : DiffWorld) (machine : Machine) : Decidable (Allowed world machine) := by
  unfold Allowed
  infer_instance

/-- A diff that may leave out the databases it does leave out, over a store whose
sources are spelled as the sites are. -/
structure Trusted (world : DiffWorld) (machine : Machine) : Prop where
  held : ∀ site ∈ sites machine, site.kind = .db →
    world.store.state.dbFingerprints.get? site.path = some (dbFingerprint machine site.path) →
    ∃ listed, world.held site.harness site.path = some listed ∧
      ∀ source, source ∈ listed ↔ source ∈ site.enumerated machine
  spelled : ∀ record ∈ world.store.records, ∀ owner ∈ sites machine,
    owner.harness = record.harness → owner.owns record.source = true →
    ∃ site ∈ sites machine, site.Covers record.harness record.source

theorem has_diff_covered {store : LocalStore} {machine : Machine} {site : Site}
    {harness : HarnessId} {source : String} (keyed : Keyed store) (apart : Apart (sites machine))
    (distinct : DistinctDbs (sites machine)) (member : site ∈ sites machine)
    (covers : site.Covers harness source) (owns : site.owns source = true) :
    (store.diff machine).Has harness source ↔
      if store.scans machine site then source ∈ site.enumerated machine ∧
        (store.Has harness source ∨ ¬ Transient machine harness source)
      else store.Has harness source := by
  rw [has_diff keyed, and_iff_left ⟨site, member, covers.1.symm, owns⟩]
  exact scanSites_covered apart distinct member covers

theorem Sound.step {world next : DiffWorld} {machine : Machine} (sound : Sound world)
    (allowed : Allowed world machine) (taken : diffStep world machine = some next) :
    Sound next := by
  cases taken
  refine ⟨sound.keyed.diff, ?_⟩
  intro harness path listed held source below
  simp only [DiffWorld.heldAfter] at held
  split at held
  · cases held
  · rename_i site found
    have member := List.mem_of_find?_eq_some found
    have same := List.find?_some found
    simp only [Bool.and_eq_true, decide_eq_true_eq] at same
    obtain ⟨⟨db, rfl⟩, rfl⟩ := same
    have owns : site.owns source = true := (Site.owns_db db source).trans below
    have covers : site.Covers site.harness source := ⟨rfl, startsWith_of_append below⟩
    rw [has_diff_covered sound.keyed allowed.1 allowed.2 member covers owns]
    split at held
    · rename_i scans
      rw [if_pos scans]
      split at held
      · rename_i complete
        cases held
        constructor
        · exact And.left
        · intro listed
          exact ⟨listed, leavesRecord_iff.mp (List.all_eq_true.mp complete source listed)⟩
      · cases held
    · rename_i skipped
      rw [if_neg skipped]
      exact sound.held _ _ _ held source below

theorem diffRun_sound {world : DiffWorld} (run : Transition.Run diffStep Allowed .start world) :
    Sound world :=
  run.invariant Sound sound_start fun _ _ _ sound allowed taken => sound.step allowed taken

end Step

section Records

variable [HarnessNames] {store : LocalStore}

theorem Keyed.has (keyed : Keyed store) {record : SourceRecord} (member : record ∈ store.records) :
    store.recordOf record.harness record.source = some record := by
  obtain ⟨key, found⟩ := SortedMap.mem_values.mp member
  have place : key = sourceKey record.harness record.source :=
    keyed (key, record) (SortedMap.get?_eq_some_iff.mp found)
  rw [LocalStore.recordOf, ← place, found]

theorem Keyed.filter (keyed : Keyed store) {harness : HarnessId} {source : String}
    {record : SourceRecord} (found : store.recordOf harness source = some record) :
    store.records.filter (fun other => other.harness = harness && other.source = source) =
      [record] := by
  obtain ⟨ours, here⟩ := keyed.recordOf found
  apply SortedMap.filter_values found
  · simp [ours, here]
  · intro entry member passes
    rw [Bool.and_eq_true, decide_eq_true_eq, decide_eq_true_eq] at passes
    rw [keyed entry member, passes.1, passes.2]

end Records

section Run

variable [HarnessNames] [DocumentCodec] {world : DiffWorld} {machine : Machine}

theorem Trusted.skipped (trusted : Trusted world machine)
    (enumerates : ∀ site ∈ sites machine, site.kind = .db →
      ∃ found, site.discover machine = .ok found)
    {site : Site} (member : site ∈ sites machine)
    (idle : ¬ world.store.scans machine site = true) :
    site.kind = .db ∧ ∃ listed, world.held site.harness site.path = some listed ∧
      ∀ source, source ∈ listed ↔ source ∈ site.enumerated machine := by
  cases kind : site.kind with
  | db =>
      obtain ⟨found, discovered⟩ := enumerates site member kind
      have stored : world.store.state.dbFingerprints.get? site.path =
          some (dbFingerprint machine site.path) := by
        simpa [LocalStore.scans, kind, discovered, Except.isOk, Except.toBool] using idle
      exact ⟨rfl, trusted.held site member kind stored⟩
  | files => simp [LocalStore.scans, kind] at idle
  | sessionDirs => simp [LocalStore.scans, kind] at idle
  | grokBotDirs => simp [LocalStore.scans, kind] at idle

theorem Trusted.covered (trusted : Trusted world machine) (sound : Sound world)
    {harness : HarnessId} {source : String}
    (has : (world.store.diff machine).Has harness source) :
    ∃ site ∈ sites machine, site.Covers harness source := by
  obtain ⟨scanned, owner, present, ours, owns⟩ := (has_diff sound.keyed).mp has
  by_contra uncovered
  have apart : ∀ site ∈ sites machine, ¬ site.Covers harness source :=
    fun site member covers => uncovered ⟨site, member, covers⟩
  have stored := (scanSites_apart apart).mp scanned
  obtain ⟨record, found⟩ : world.store.Has harness source := stored
  obtain ⟨rfl, rfl⟩ := sound.keyed.recordOf found
  have member : record ∈ world.store.records := SortedMap.mem_values.mpr ⟨_, found⟩
  exact uncovered (trusted.spelled record member owner present ours owns)

theorem Sound.enumerated (sound : Sound world) (allowed : Allowed world machine)
    (trusted : Trusted world machine)
    (enumerates : ∀ site ∈ sites machine, site.kind = .db →
      ∃ found, site.discover machine = .ok found)
    {harness : HarnessId} {source : String}
    (has : (world.store.diff machine).Has harness source) :
    ∃ site ∈ sites machine, site.harness = harness ∧ source ∈ site.enumerated machine := by
  obtain ⟨site, member, covers⟩ := trusted.covered sound has
  obtain ⟨scanned, owner, present, ours, owns⟩ := (has_diff sound.keyed).mp has
  refine ⟨site, member, covers.1.symm, ?_⟩
  have kept := (scanSites_covered allowed.1 allowed.2 member covers).mp scanned
  split at kept
  · exact kept.1
  · rename_i idle
    obtain ⟨db, listed, held, same⟩ := trusted.skipped enumerates member idle
    have alike : owner.kind = .db := (sites_kind member present (ours.trans covers.1)).trans db
    have below : startsWith source (owner.path ++ "\n") = true :=
      (Site.owns_db alike source).symm.trans owns
    have one : owner = site := allowed.1.unique member present covers
      ⟨ours.symm, startsWith_of_append below⟩
    subst one
    obtain rfl := covers.1
    exact (same source).mp ((sound.held _ _ _ held source below).mp kept)

theorem Sound.recorded (sound : Sound world) (allowed : Allowed world machine)
    (trusted : Trusted world machine)
    (enumerates : ∀ site ∈ sites machine, site.kind = .db →
      ∃ found, site.discover machine = .ok found)
    (reads : ∀ site ∈ sites machine, world.store.scans machine site = true →
      ∀ source ∈ site.enumerated machine, world.store.Has site.harness source ∨
        ¬ Transient machine site.harness source)
    {site : Site} (member : site ∈ sites machine) {source : String}
    (listed : source ∈ site.enumerated machine) :
    (world.store.diff machine).Has site.harness source := by
  obtain ⟨owns, below⟩ := owns_enumerated listed
  have covers : site.Covers site.harness source := ⟨rfl, below⟩
  rw [has_diff_covered sound.keyed allowed.1 allowed.2 member covers owns]
  split
  · rename_i scans
    exact ⟨listed, reads site member scans source listed⟩
  · rename_i idle
    obtain ⟨db, held, known, same⟩ := trusted.skipped enumerates member idle
    have inside : startsWith source (site.path ++ "\n") = true :=
      (Site.owns_db db source).symm.trans owns
    exact (sound.held _ _ _ known source inside).mpr ((same source).mpr listed)

/-- After a diff in which the databases can be enumerated and no load of a source
without a record fails transiently, the records are those of the enumerated sources. -/
theorem diffRun_exact (run : Transition.Run diffStep Allowed .start world)
    (allowed : Allowed world machine) (trusted : Trusted world machine)
    (enumerates : ∀ site ∈ sites machine, site.kind = .db →
      ∃ found, site.discover machine = .ok found)
    (reads : ∀ site ∈ sites machine, world.store.scans machine site = true →
      ∀ source ∈ site.enumerated machine, world.store.Has site.harness source ∨
        ¬ Transient machine site.harness source) :
    Exact machine (world.store.diff machine) := by
  have sound := diffRun_sound run
  constructor
  · intro record member
    exact sound.enumerated allowed trusted enumerates ⟨record, sound.keyed.diff.has member⟩
  · intro site member source listed
    obtain ⟨record, found⟩ := sound.recorded allowed trusted enumerates reads member listed
    exact ⟨record, sound.keyed.diff.filter found⟩

end Run

section Return

attribute [local instance] HarnessNames.snakeCase DocumentCodec.padded

/-- A machine with at most one store: a database of one session, which never changes. -/
def hermesAt (roots : List String) : Machine where
  roots harness := if harness = .hermes then roots else []
  listing _ := []
  stat path := if path = "/h/state.db" then some (1, 4096) else none
  discover _ _ := .ok [("1", "a")]
  loadPath _ path _ := .error (.broken path)
  loadDb _ _ reference := .ok ⟨⟨reference, 0, none, none, none, none, ""⟩, []⟩
  isDir _ := false
  originOf _ := .error .gitMissing
  filePath _ := none
  now := 0

def installed : Machine := hermesAt ["/h/state.db"]

def removed : Machine := hermesAt []

theorem hermesAt_reads (roots : List String) (harness : HarnessId) (source : String) :
    ¬ Transient (hermesAt roots) harness source := by
  unfold Transient Machine.load
  intro given
  obtain ⟨message, failed⟩ := given
  split at failed
  · unfold Site.load at failed
    split at failed
    · split at failed <;> cases failed
    · cases failed
  · cases failed

theorem sites_installed : sites installed = [⟨.hermes, "/h/state.db", .db⟩] := by
  decide +kernel

theorem installed_enumerates : ∀ site ∈ sites installed, site.kind = .db →
    ∃ found, site.discover installed = .ok found := by
  rw [sites_installed]
  intro site member _
  obtain rfl := List.mem_singleton.mp member
  exact ⟨_, rfl⟩

theorem installed_allowed (world : DiffWorld) : Allowed world installed := by
  unfold Allowed
  rw [sites_installed]
  decide

def returnedRun : Option DiffWorld :=
  Transition.execute diffStep Allowed .start [installed, removed]

/-- The records went with the site, its fingerprint stayed. -/
theorem returnedRun_finishes : returnedRun.map (fun world =>
    (Site.enumerated installed ⟨.hermes, "/h/state.db", .db⟩,
      (world.store.diff installed).records)) = some (["/h/state.db\n1"], []) := by
  decide +kernel

/-- A database that comes back as it was is not enumerated, and stays without records. -/
theorem diffRun_not_exact : ∃ world, Transition.Run diffStep Allowed .start world ∧
    Allowed world installed ∧
    (∀ site ∈ sites installed, site.kind = .db → ∃ found, site.discover installed = .ok found) ∧
    (∀ harness source, ¬ Transient installed harness source) ∧
    ¬ Exact installed (world.store.diff installed) := by
  obtain ⟨world, finished, shape⟩ := Option.map_eq_some_iff.mp returnedRun_finishes
  simp only [Prod.mk.injEq] at shape
  obtain ⟨listed, gone⟩ := shape
  refine ⟨world, Transition.run_of_execute finished, installed_allowed world,
    installed_enumerates, hermesAt_reads _, ?_⟩
  intro exactly
  obtain ⟨record, only⟩ := exactly.recorded ⟨.hermes, "/h/state.db", .db⟩
    (by rw [sites_installed]; exact List.mem_singleton_self _) "/h/state.db\n1"
    (by rw [listed]; exact List.mem_singleton_self _)
  rw [gone] at only
  cases only

-- Nor is a load tried again that failed while the database was locked.
example : ((LocalStore.start.diff { installed with
    loadDb := fun _ _ _ => .error (.transient "locked") }).diff installed).records = [] := by
  decide +kernel

def settled : DiffWorld where
  store := LocalStore.start.diff installed
  held := DiffWorld.start.heldAfter installed

theorem settled_held : settled.held .hermes "/h/state.db" = some ["/h/state.db\n1"] ∧
    Site.enumerated installed ⟨.hermes, "/h/state.db", .db⟩ = ["/h/state.db\n1"] := by
  decide +kernel

theorem settled_trusted : Trusted settled installed := by
  constructor
  · rw [sites_installed]
    intro site member _ _
    obtain rfl := List.mem_singleton.mp member
    obtain ⟨held, listed⟩ := settled_held
    exact ⟨_, held, fun source => by rw [listed]⟩
  · rw [sites_installed]
    intro record _ owner member ours owns
    refine ⟨owner, member, ours.symm, ?_⟩
    obtain rfl := List.mem_singleton.mp member
    exact startsWith_of_append owns

theorem settled_reached : Transition.Run diffStep Allowed .start settled :=
  .tail .refl (installed_allowed .start) rfl

/-- Without the diff in between, the database may be left out. -/
theorem diffRun_exact_twice : Exact installed (settled.store.diff installed) :=
  diffRun_exact settled_reached (installed_allowed settled) settled_trusted installed_enumerates
    fun _ _ _ _ _ => .inr (hermesAt_reads _ _ _)

end Return

end AgentTranscript
