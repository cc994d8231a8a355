import AgentTranscript.Library.Transition
import AgentTranscript.Search.RuntimeProperties

/-!
Machines that index one repository over time: servers sync their runtimes,
`index` rebuilds local files, and a server starts from its file or from a
snapshot some machine published.
-/

set_option autoImplicit false

namespace AgentTranscript

open Loop Transition

/-- `runtimes` of the servers that run, the local `files`, and every snapshot
published so far. -/
structure Fleet (Extracted Stored : Type) [Txcript Extracted] where
  runtimes : Nat → Option (Runtime Extracted)
  files : Nat → Option Stored
  archive : List Stored

inductive FleetAction (Stored : Type) where
  | start (machine : Nat) (fetched : Except Error (Option Stored)) (diskError : Option Error)
  | sync (machine : Nat) (merged : List MergedView) (bodies : Bodies) (canWrite : Bool)
      (diskError : Option Error)
  | rebuild (machine : Nat) (merged : List MergedView) (bodies : Bodies) (publish : Bool)
      (diskError : Option Error)

section Steps

variable {Extracted Stored : Type} [HarnessNames] [DocumentCodec] [DocumentReader]
  [Txcript Extracted] [SnapshotCodec Extracted Stored]

def Fleet.initial (Extracted Stored : Type) [Txcript Extracted] : Fleet Extracted Stored where
  runtimes _ := none
  files _ := none
  archive := []

def Fleet.store (fleet : Fleet Extracted Stored) (machine : Nat) (file : Option Stored) :
    Fleet Extracted Stored :=
  { fleet with files := Function.update fleet.files machine file }

def Fleet.run (fleet : Fleet Extracted Stored) (machine : Nat) (runtime : Runtime Extracted) :
    Fleet Extracted Stored :=
  { fleet with runtimes := Function.update fleet.runtimes machine (some runtime) }

def Fleet.publish (fleet : Fleet Extracted Stored) (plain : Option Stored) :
    Fleet Extracted Stored :=
  { fleet with archive := plain.toList ++ fleet.archive }

def fleetStep (repoKey : String) (fleet : Fleet Extracted Stored) :
    FleetAction Stored → Option (Fleet Extracted Stored)
  | .start machine fetched diskError =>
      match runtimeFor repoKey fetched diskError (fleet.files machine) with
      | (.error _, left) => some (fleet.store machine left)
      | (.ok runtime, left) => some ((fleet.store machine left).run machine runtime)
  | .sync machine merged bodies canWrite diskError =>
      (fleet.runtimes machine).map fun runtime =>
        let (synced, left, published) :=
          syncRuntime runtime merged bodies canWrite diskError (fleet.files machine)
        ((fleet.store machine left).run machine synced).publish published
  | .rebuild machine merged bodies publish diskError =>
      match (fromMerged repoKey merged bodies diskError (fleet.files machine) :
        Except Error (Snapshot Extracted) × Option Stored) with
      | (.error _, left) => some (fleet.store machine left)
      | (.ok snapshot, left) =>
          let published := if publish then
              match SnapshotCodec.toBytes snapshot with
              | .ok plain => some plain
              | .error _ => none
            else none
          some ((fleet.store machine left).publish published)

/-- Bodies with one key and one known fingerprint are the same everywhere and
at all times; an empty fingerprint says nothing. -/
def BodiesAgree (contents : DocKey → String → Transcript) (merged : List MergedView)
    (bodies : Bodies) : Prop :=
  ∀ view ∈ merged, view.pick ≠ .ambiguous → fingerprintOf view ≠ "" →
    ∀ body, transcript bodies view = .ok body → body = contents view.docKey (fingerprintOf view)

def fleetAllowed (contents : DocKey → String → Transcript) (fleet : Fleet Extracted Stored) :
    FleetAction Stored → Prop
  | .start _ fetched _ => ∀ plain, fetched = .ok (some plain) → plain ∈ fleet.archive
  | .sync _ merged bodies _ _ => BodiesAgree contents merged bodies
  | .rebuild _ merged bodies _ _ => BodiesAgree contents merged bodies

def FleetRun (repoKey : String) (contents : DocKey → String → Transcript)
    (fleet : Fleet Extracted Stored) : Prop :=
  Run (fleetStep repoKey) (fleetAllowed contents) (Fleet.initial Extracted Stored) fleet

end Steps

section Sound

variable {Extracted Stored : Type} [Txcript Extracted] [SnapshotCodec Extracted Stored]
  (contents : DocKey → String → Transcript) (repoKey : String)

/-- A document whose fingerprint is known holds the extraction of that body. -/
def SoundDocument (document : Document Extracted) : Prop :=
  Txcript.key document.extracted = document.key ∧
    (document.fingerprint ≠ "" → document.extracted =
      Txcript.extract document.key (contents document.key document.fingerprint))

def SoundEntry (key : DocKey) (entry : DocEntry Extracted) : Prop :=
  ∃ document : Document Extracted, document.key = key ∧ document.entry = entry ∧
    SoundDocument contents document

structure SoundSnapshot (snapshot : Snapshot Extracted) : Prop where
  valid : snapshot.validate (some repoKey) = .ok ()
  documents : ∀ document ∈ snapshot.documents, SoundDocument contents document

variable (Extracted) in
def SoundStored (stored : Stored) : Prop :=
  ∃ snapshot : Snapshot Extracted, SnapshotCodec.fromSlice stored = .ok snapshot ∧
    SoundSnapshot contents repoKey snapshot

variable (Extracted) in
/-- A file that is absent is sound. -/
def SoundFile (file : Option Stored) : Prop :=
  ∀ stored, file = some stored → SoundStored Extracted contents repoKey stored

/-- The documents that a rebuild may reuse. -/
def SoundPrior (prior : HashMap (DocKey × String) Extracted) : Prop :=
  ∀ key fingerprint extracted, prior.lookup (key, fingerprint) = some extracted →
    SoundDocument contents (⟨key, fingerprint, extracted⟩ : Document Extracted)

structure SoundRuntime (runtime : Runtime Extracted) : Prop where
  owner : runtime.repoKey = repoKey
  entries : ∀ key entry, runtime.documents.lookup key = some entry → SoundEntry contents key entry

structure SoundFleet (fleet : Fleet Extracted Stored) : Prop where
  runtimes : ∀ machine runtime, fleet.runtimes machine = some runtime →
    SoundRuntime contents repoKey runtime
  files : ∀ machine stored, fleet.files machine = some stored →
    SoundStored Extracted contents repoKey stored
  archive : ∀ stored ∈ fleet.archive, SoundStored Extracted contents repoKey stored

variable {contents : DocKey → String → Transcript} {repoKey : String}

theorem savedDocument_entry (document : Document Extracted) :
    savedDocument document.key document.entry = .ok document := by
  obtain ⟨value, written, read⟩ := Txcript.fromValue_toValue document.extracted
  have same : valueOf document.extracted = value := by rw [valueOf, written]
  rw [savedDocument, Document.entry, DocEntry.of, same, read, ok_bind]

theorem SoundSnapshot.stored {snapshot : Snapshot Extracted} {stored : Stored}
    (sound : SoundSnapshot contents repoKey snapshot)
    (written : SnapshotCodec.toBytes snapshot = .ok stored) :
    SoundStored Extracted contents repoKey stored := by
  obtain ⟨other, produced, parsed⟩ := SnapshotCodec.fromSlice_toBytes snapshot
  rw [written] at produced
  cases produced
  exact ⟨snapshot, parsed, sound⟩

theorem SoundPrior.erase {prior : HashMap (DocKey × String) Extracted}
    (known : SoundPrior contents prior) (used : DocKey × String) :
    SoundPrior contents (prior.erase used) := by
  intro key fingerprint extracted found
  rw [HashMap.lookup_erase_eq] at found
  split_ifs at found
  exact known key fingerprint extracted found

theorem SoundSnapshot.intoRuntime {snapshot : Snapshot Extracted}
    (sound : SoundSnapshot contents repoKey snapshot) :
    SoundRuntime contents repoKey snapshot.intoRuntime := by
  refine ⟨(Snapshot.validate_ok_iff.mp sound.valid).2.2.1, ?_⟩
  intro key entry found
  rw [Snapshot.intoRuntime, HashMap.lookup_collect] at found
  obtain ⟨document, member, shape⟩ := List.mem_map.mp (HashMap.mem_of_lastOf found)
  cases shape
  exact ⟨document, rfl, rfl, sound.documents document member⟩

theorem SoundRuntime.apply {runtime : Runtime Extracted}
    (sound : SoundRuntime contents repoKey runtime) (removes : List DocKey)
    {documents : List (Document Extracted)}
    (loaded : ∀ document ∈ documents, SoundDocument contents document) :
    SoundRuntime contents repoKey (runtime.apply removes documents) := by
  refine ⟨(apply_repoKey runtime removes documents).trans sound.owner, ?_⟩
  intro key entry found
  rw [apply_lookup, Option.or_eq_some_iff] at found
  rcases found with fresh | held
  · obtain ⟨document, member, shape⟩ := List.mem_map.mp (HashMap.mem_of_lastOf fresh)
    cases shape
    exact ⟨document, rfl, rfl, loaded document member⟩
  · obtain ⟨_, held⟩ := held
    split_ifs at held
    exact sound.entries key entry held

theorem readSnapshot_sound {stored : Stored} (sound : SoundStored Extracted contents repoKey stored) :
    ∃ snapshot : Snapshot Extracted, readSnapshot repoKey stored = .ok snapshot ∧
      SoundSnapshot contents repoKey snapshot := by
  obtain ⟨snapshot, parsed, valid⟩ := sound
  exact ⟨snapshot, readSnapshot_ok_iff.mpr ⟨parsed, valid.valid⟩, valid⟩

end Sound

section Preserved

variable {Extracted Stored : Type} [HarnessNames] [DocumentCodec] [DocumentReader]
  [Txcript Extracted] [SnapshotCodec Extracted Stored]
  {contents : DocKey → String → Transcript} {repoKey : String} {merged : List MergedView}
  {bodies : Bodies} {runtime : Runtime Extracted} {snapshot : Snapshot Extracted}
  {diskError : Option Error} {file left : Option Stored}

omit [DocumentCodec] in
theorem freshDocument_sound (agree : BodiesAgree contents merged bodies) {view : MergedView}
    (member : view ∈ merged) (picked : view.pick ≠ .ambiguous) {body : Transcript}
    (loaded : transcript bodies view = .ok body) :
    SoundDocument contents (⟨view.docKey, fingerprintOf view, Txcript.extract view.docKey body⟩ :
      Document Extracted) := by
  refine ⟨Txcript.key_extract _ _, ?_⟩
  intro known
  rw [agree view member picked known body loaded]

omit [DocumentCodec] in
theorem loadChanges_sound (agree : BodiesAgree contents merged bodies) {document : Document Extracted}
    (member : document ∈ loadChanges bodies (runtime.changes (wantedOf merged))) :
    SoundDocument contents document := by
  obtain ⟨change, present, body, loaded, rfl⟩ := mem_loadChanges.mp member
  obtain ⟨viewIn, picked, sameKey, sameFingerprint⟩ := wantedOf_mem (mem_changes.mp present).1
  rw [← sameKey, ← sameFingerprint]
  exact freshDocument_sound agree viewIn picked loaded

omit [DocumentCodec] in
theorem rebuildStep_sound (agree : BodiesAgree contents merged bodies) {view : MergedView}
    (member : view ∈ merged)
    {state updated : HashMap (DocKey × String) Extracted × List (Document Extracted)}
    (known : SoundPrior contents state.1)
    (pushed : ∀ document ∈ state.2, SoundDocument contents document)
    (stepped : rebuildStep bodies state view = .ok updated) :
    SoundPrior contents updated.1 ∧
      ∀ document ∈ updated.2, SoundDocument contents document := by
  have push : ∀ document : Document Extracted, SoundDocument contents document →
      ∀ other ∈ state.2 ++ [document], SoundDocument contents other := by
    intro document sound other present
    rcases List.mem_append.mp present with old | new
    · exact pushed other old
    · exact List.mem_singleton.mp new ▸ sound
  unfold rebuildStep at stepped
  by_cases tied : view.pick = .ambiguous
  · rw [if_pos tied] at stepped
    cases stepped
    exact ⟨known, pushed⟩
  · rw [if_neg tied] at stepped
    by_cases unknown : (fingerprintOf view).isEmpty = true
    · simp only [unknown, if_true] at stepped
      obtain ⟨body, loaded, stepped⟩ := bind_ok stepped
      cases stepped
      exact ⟨known, push _ (freshDocument_sound agree member tied loaded)⟩
    · have rest := known.erase (view.docKey, fingerprintOf view)
      simp only [unknown, AList.extract_eq_lookup_erase] at stepped
      cases found : state.1.lookup (view.docKey, fingerprintOf view) with
      | some extracted =>
          simp only [found] at stepped
          cases stepped
          exact ⟨rest, push _ (known _ _ _ found)⟩
      | none =>
          simp only [found] at stepped
          obtain ⟨body, loaded, stepped⟩ := bind_ok stepped
          cases stepped
          exact ⟨rest, push _ (freshDocument_sound agree member tied loaded)⟩

omit [DocumentReader] in
theorem sealSnapshot_sound {documents : List (Document Extracted)}
    (sound : ∀ document ∈ documents, SoundDocument contents document)
    (made : sealSnapshot repoKey documents = .ok snapshot) :
    SoundSnapshot contents repoKey snapshot := by
  obtain ⟨other, sealed, _, sorted, valid⟩ := sealSnapshot_total repoKey
    fun document member => (sound document member).1
  rw [made] at sealed
  cases sealed
  refine ⟨valid, ?_⟩
  intro document member
  rw [sorted] at member
  exact sound document ((List.mem_insertionSort _).mp member)

omit [DocumentReader] in
theorem toSnapshot_sound (sound : SoundRuntime contents repoKey runtime)
    (made : runtime.toSnapshot = .ok snapshot) : SoundSnapshot contents repoKey snapshot := by
  obtain ⟨documents, saved, made⟩ := bind_ok made
  rw [sound.owner] at made
  refine sealSnapshot_sound ?_ made
  intro document member
  obtain ⟨entry, present, read⟩ := (mem_of_mapM_ok saved).mp member
  obtain ⟨original, sameKey, sameEntry, kept⟩ :=
    sound.entries entry.1 entry.2 (HashMap.mem_entries_iff.mp present)
  rw [← sameKey, ← sameEntry, savedDocument_entry] at read
  cases read
  exact kept

omit [DocumentReader] in
/-- What a commit saves and publishes is the runtime it leaves. -/
theorem commit_sound {removes : List DocKey} {documents : List (Document Extracted)}
    {canWrite : Bool} {published : Option Stored} {committed : Runtime Extracted}
    (sound : SoundRuntime contents repoKey runtime)
    (loaded : ∀ document ∈ documents, SoundDocument contents document)
    (saved : SoundFile Extracted contents repoKey file)
    (ended : runtime.commit removes documents canWrite diskError file =
      (committed, left, published)) :
    SoundRuntime contents repoKey committed ∧
      SoundFile Extracted contents repoKey left ∧
      SoundFile Extracted contents repoKey published := by
  have applied := sound.apply removes loaded
  unfold Runtime.commit at ended
  rcases persist_cases (runtime.apply removes documents) diskError file with kept | written
  · obtain ⟨outcome, unsaved, shape⟩ := kept
    rw [shape] at ended
    cases outcome with
    | error error =>
        cases ended
        exact ⟨applied, saved, fun stored present => by cases present⟩
    | ok wrote =>
        cases wrote with
        | false =>
            cases ended
            exact ⟨applied, saved, fun stored present => by cases present⟩
        | true => exact absurd rfl unsaved
  · obtain ⟨snapshot, stored, _, made, produced, shape⟩ := written
    have clean : SoundRuntime contents repoKey
        { runtime.apply removes documents with dirty := false } := ⟨applied.owner, applied.entries⟩
    have sound := toSnapshot_sound applied made
    have remade : ({ runtime.apply removes documents with dirty := false } :
        Runtime Extracted).toSnapshot = .ok snapshot := made
    rw [shape] at ended
    cases ended
    refine ⟨clean, fun other present => Option.some.inj present ▸ sound.stored produced, ?_⟩
    intro other present
    rw [remade, ok_bind, produced] at present
    split_ifs at present
    cases present
    exact sound.stored produced

theorem buildSnapshot_sound (agree : BodiesAgree contents merged bodies)
    (saved : SoundFile Extracted contents repoKey file)
    (built : buildSnapshot repoKey merged bodies file = .ok snapshot) :
    SoundSnapshot contents repoKey snapshot := by
  obtain ⟨prior, loaded, built⟩ := bind_ok built
  obtain ⟨final, finished, made⟩ := bind_ok built
  have known : SoundPrior contents prior := by
    obtain ⟨opened, read, shape⟩ := bind_ok loaded
    cases shape
    intro key fingerprint extracted found
    cases file with
    | none =>
        cases read
        cases found
    | some stored =>
        obtain ⟨snapshot, parsed, sound⟩ := readSnapshot_sound (saved stored rfl)
        rw [loadLocal_ok parsed] at read
        cases read
        dsimp only at found
        rw [HashMap.lookup_collect] at found
        obtain ⟨document, member, shape⟩ := List.mem_map.mp (HashMap.mem_of_lastOf found)
        cases shape
        exact sound.documents document member
  have kept := foldlM_ok_invariant finished (fun _ state =>
    SoundPrior contents state.1 ∧ ∀ document ∈ state.2, SoundDocument contents document)
    ⟨known, fun document member => by cases member⟩
    (fun _ view state updated member holds stepped =>
      rebuildStep_sound agree member holds.1 holds.2 stepped)
  exact sealSnapshot_sound kept.2 made

theorem fromMerged_sound (agree : BodiesAgree contents merged bodies)
    (saved : SoundFile Extracted contents repoKey file)
    {outcome : Except Error (Snapshot Extracted)}
    (ended : fromMerged repoKey merged bodies diskError file = (outcome, left)) :
    (∀ snapshot, outcome = .ok snapshot → SoundSnapshot contents repoKey snapshot) ∧
      SoundFile Extracted contents repoKey left := by
  unfold fromMerged at ended
  cases built : (buildSnapshot repoKey merged bodies file : Except Error (Snapshot Extracted)) with
  | error error =>
      rw [built] at ended
      cases ended
      exact ⟨fun _ made => (by cases made), saved⟩
  | ok snapshot =>
      have sound := buildSnapshot_sound agree saved built
      rw [built] at ended
      rcases saveLocal_cases snapshot diskError file with unsaved | written
      · obtain ⟨error, shape⟩ := unsaved
        simp only [shape] at ended
        cases ended
        exact ⟨fun _ made => (by cases made), saved⟩
      · obtain ⟨stored, produced, shape⟩ := written
        simp only [shape] at ended
        cases ended
        exact ⟨fun other made => Except.ok.inj made ▸ sound,
          fun other present => Option.some.inj present ▸ sound.stored produced⟩

omit [HarnessNames] [DocumentCodec] [DocumentReader] in
theorem loadRemote_sound {fetched : Except Error (Option Stored)}
    (saved : SoundFile Extracted contents repoKey file)
    (published : ∀ plain, fetched = .ok (some plain) →
      SoundStored Extracted contents repoKey plain)
    {outcome : Except Error (Option (Snapshot Extracted))}
    (ended : loadRemote repoKey fetched diskError file = (outcome, left)) :
    (∀ snapshot, outcome = .ok (some snapshot) → SoundSnapshot contents repoKey snapshot) ∧
      SoundFile Extracted contents repoKey left := by
  unfold loadRemote at ended
  cases fetched with
  | error error =>
      cases ended
      exact ⟨fun _ made => (by cases made), saved⟩
  | ok found =>
      cases found with
      | none =>
          cases ended
          exact ⟨fun _ made => (by cases made), saved⟩
      | some plain =>
          obtain ⟨snapshot, parsed, sound⟩ := readSnapshot_sound (published plain rfl)
          simp only [parsed] at ended
          rcases saveLocal_cases snapshot diskError file with unsaved | written
          · obtain ⟨error, shape⟩ := unsaved
            simp only [shape] at ended
            cases ended
            exact ⟨fun _ made => (by cases made), saved⟩
          · obtain ⟨stored, produced, shape⟩ := written
            simp only [shape] at ended
            cases ended
            refine ⟨?_, fun other present => Option.some.inj present ▸ sound.stored produced⟩
            intro other made
            cases made
            exact sound

omit [HarnessNames] [DocumentCodec] [DocumentReader] in
theorem runtimeFor_sound {fetched : Except Error (Option Stored)}
    (saved : SoundFile Extracted contents repoKey file)
    (published : ∀ plain, fetched = .ok (some plain) →
      SoundStored Extracted contents repoKey plain)
    {outcome : Except Error (Runtime Extracted)}
    (ended : runtimeFor repoKey fetched diskError file = (outcome, left)) :
    (∀ runtime, outcome = .ok runtime → SoundRuntime contents repoKey runtime) ∧
      SoundFile Extracted contents repoKey left := by
  unfold runtimeFor at ended
  cases file with
  | some stored =>
      obtain ⟨snapshot, parsed, sound⟩ := readSnapshot_sound (saved stored rfl)
      rw [loadLocal_ok parsed] at ended
      cases ended
      exact ⟨fun _ made => Except.ok.inj made ▸ sound.intoRuntime, saved⟩
  | none =>
      have blank : SoundRuntime contents repoKey (Runtime.empty repoKey : Runtime Extracted) :=
        ⟨rfl, fun key entry found => by cases found⟩
      cases opened : (loadRemote repoKey fetched diskError none :
          Except Error (Option (Snapshot Extracted)) × Option Stored) with
      | mk result rest =>
          obtain ⟨sound, kept⟩ := loadRemote_sound saved published opened
          simp only [loadLocal, opened] at ended
          cases result with
          | error error =>
              cases ended
              exact ⟨fun _ made => Except.ok.inj made ▸ blank, kept⟩
          | ok found =>
              cases found with
              | none =>
                  cases ended
                  exact ⟨fun _ made => Except.ok.inj made ▸ blank, kept⟩
              | some snapshot =>
                  cases ended
                  exact ⟨fun _ made => Except.ok.inj made ▸ (sound snapshot rfl).intoRuntime, kept⟩

end Preserved

section Run

variable {Extracted Stored : Type} [HarnessNames] [DocumentCodec] [DocumentReader]
  [Txcript Extracted] [SnapshotCodec Extracted Stored]
  {contents : DocKey → String → Transcript} {repoKey : String}
  {fleet next : Fleet Extracted Stored} {machine : Nat}

omit [HarnessNames] [DocumentCodec] [DocumentReader] in
theorem SoundFleet.store (sound : SoundFleet contents repoKey fleet) {file : Option Stored}
    (saved : SoundFile Extracted contents repoKey file) :
    SoundFleet contents repoKey (fleet.store machine file) := by
  refine ⟨sound.runtimes, ?_, sound.archive⟩
  intro other stored present
  by_cases same : other = machine
  · subst same
    exact saved stored (by simpa [Fleet.store] using present)
  · exact sound.files other stored (by simpa [Fleet.store, same] using present)

omit [HarnessNames] [DocumentCodec] [DocumentReader] in
theorem SoundFleet.run (sound : SoundFleet contents repoKey fleet) {runtime : Runtime Extracted}
    (synced : SoundRuntime contents repoKey runtime) :
    SoundFleet contents repoKey (fleet.run machine runtime) := by
  refine ⟨?_, sound.files, sound.archive⟩
  intro other started present
  by_cases same : other = machine
  · subst same
    have shape : runtime = started := by simpa [Fleet.run] using present
    exact shape ▸ synced
  · exact sound.runtimes other started (by simpa [Fleet.run, same] using present)

omit [HarnessNames] [DocumentCodec] [DocumentReader] in
theorem SoundFleet.publish (sound : SoundFleet contents repoKey fleet) {plain : Option Stored}
    (published : SoundFile Extracted contents repoKey plain) :
    SoundFleet contents repoKey (fleet.publish plain) := by
  refine ⟨sound.runtimes, sound.files, ?_⟩
  intro stored member
  rcases List.mem_append.mp member with new | old
  · exact published stored (by simpa using new)
  · exact sound.archive stored old

theorem fleetStep_sound (sound : SoundFleet contents repoKey fleet) {action : FleetAction Stored}
    (allowed : fleetAllowed contents fleet action)
    (stepped : fleetStep repoKey fleet action = some next) : SoundFleet contents repoKey next := by
  cases action with
  | start machine fetched diskError =>
      cases opened : (runtimeFor repoKey fetched diskError (fleet.files machine) :
          Except Error (Runtime Extracted) × Option Stored) with
      | mk outcome left =>
          obtain ⟨started, kept⟩ := runtimeFor_sound (sound.files machine)
            (fun plain found => sound.archive plain (allowed plain found)) opened
          simp only [fleetStep, opened] at stepped
          cases outcome with
          | error error =>
              cases stepped
              exact sound.store kept
          | ok runtime =>
              cases stepped
              exact (sound.store kept).run (started runtime rfl)
  | sync machine merged bodies canWrite diskError =>
      simp only [fleetStep, Option.map_eq_some_iff] at stepped
      obtain ⟨runtime, running, shape⟩ := stepped
      cases ended : syncRuntime runtime merged bodies canWrite diskError (fleet.files machine) with
      | mk committed rest =>
          obtain ⟨left, published⟩ := rest
          obtain ⟨synced, kept, shared⟩ := commit_sound (sound.runtimes machine runtime running)
            (fun document member => loadChanges_sound allowed member) (sound.files machine) ended
          rw [ended] at shape
          cases shape
          exact ((sound.store kept).run synced).publish shared
  | rebuild machine merged bodies publish diskError =>
      cases ended : (fromMerged repoKey merged bodies diskError (fleet.files machine) :
          Except Error (Snapshot Extracted) × Option Stored) with
      | mk outcome left =>
          obtain ⟨built, kept⟩ := fromMerged_sound allowed (sound.files machine) ended
          simp only [fleetStep, ended] at stepped
          cases outcome with
          | error error =>
              cases stepped
              exact sound.store kept
          | ok snapshot =>
              cases stepped
              refine (sound.store kept).publish ?_
              intro stored present
              obtain ⟨other, produced, _⟩ := SnapshotCodec.fromSlice_toBytes snapshot
              rw [produced] at present
              split_ifs at present
              cases present
              exact (built snapshot rfl).stored produced

theorem FleetRun.sound (run : FleetRun repoKey contents fleet) :
    SoundFleet contents repoKey fleet := by
  refine Run.invariant run (SoundFleet contents repoKey) ?_ ?_
  · refine ⟨fun machine runtime present => ?_, fun machine stored present => ?_,
      fun stored member => ?_⟩
    · cases present
    · cases present
    · cases member
  · intro current action next sound allowed stepped
    exact fleetStep_sound sound allowed stepped

end Run

end AgentTranscript
