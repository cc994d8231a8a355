import AgentTranscript.Search.Fleet

/-!
The incremental sync against the full rebuild. They agree except where a
document was indexed under the empty fingerprint and its body changed since.
-/

set_option autoImplicit false

namespace AgentTranscript

open Loop

section Agree

variable {Extracted Stored : Type} [HarnessNames] [DocumentCodec] [DocumentReader]
  [Txcript Extracted] [SnapshotCodec Extracted Stored]
  {contents : DocKey → String → Transcript} {repoKey : String} {merged : List MergedView}
  {bodies : Bodies} {runtime : Runtime Extracted} {fleet : Fleet Extracted Stored} {machine : Nat}

omit [DocumentCodec] in
theorem SoundFleet.fileExtracts (sound : SoundFleet contents repoKey fleet)
    (agree : BodiesAgree contents merged bodies) :
    FileExtracts Extracted repoKey merged bodies (fleet.files machine) := by
  intro stored snapshot present parsed _ document member known view viewIn picked sameKey
    sameFingerprint body loaded
  obtain ⟨other, otherParsed, kept⟩ := sound.files machine stored present
  rw [parsed] at otherParsed
  cases otherParsed
  have held := (kept.documents document member).2 known
  have told := agree view viewIn picked (by rw [sameFingerprint]; exact known) body loaded
  rw [held, told, sameKey, sameFingerprint]

omit [HarnessNames] [DocumentCodec] [DocumentReader] in
theorem SoundFleet.accepted (sound : SoundFleet contents repoKey fleet) :
    Accepted Extracted repoKey (fleet.files machine) := by
  intro stored present
  obtain ⟨snapshot, parsed, kept⟩ := sound.files machine stored present
  exact ⟨snapshot, parsed, kept.valid⟩

/-- The rebuild on a machine of a fleet succeeds with the fresh entry of every
wanted document. -/
theorem fromMerged_lookup (machine : Nat) (sound : SoundFleet contents repoKey fleet)
    (agree : BodiesAgree contents merged bodies) (loads : Loads bodies merged) :
    ∃ (snapshot : Snapshot Extracted) (stored : Stored),
      fromMerged repoKey merged bodies none (fleet.files machine) = (.ok snapshot, some stored) ∧
      ∀ key, snapshot.intoRuntime.documents.lookup key =
        ((wantedOf merged).lookup key).bind fun want => freshEntry bodies key want.1 want.2 := by
  obtain ⟨documents, fresh⟩ := freshDocuments_total Extracted loads
  obtain ⟨snapshot, made, owner, sorted, valid⟩ := sealSnapshot_total repoKey
    fun document member => freshDocuments_key fresh member
  obtain ⟨stored, written, _⟩ := SnapshotCodec.fromSlice_toBytes snapshot
  refine ⟨snapshot, stored, fromMerged_eq sound.accepted (sound.fileExtracts agree) fresh made
    owner valid written, ?_⟩
  intro key
  rw [intoRuntime_lookup sorted, freshDocuments_lookup fresh]

/-- No document held under the empty fingerprint has another body by now. -/
def UnknownUnchanged (bodies : Bodies) (merged : List MergedView) (runtime : Runtime Extracted) :
    Prop :=
  ∀ key view, (wantedOf merged).lookup key = some ("", view) →
    ∀ entry, runtime.documents.lookup key = some entry → entry.fingerprint = "" →
      ∀ body, transcript bodies view = .ok body →
        entry.extracted = valueOf (Txcript.extract key body : Extracted)

omit [DocumentCodec] in
/-- A held entry with a known fingerprint is the fresh one. -/
theorem held_eq_fresh (sound : SoundRuntime contents repoKey runtime)
    (agree : BodiesAgree contents merged bodies) {key : DocKey} {view : MergedView}
    {entry : DocEntry Extracted}
    (want : (wantedOf merged).lookup key = some (entry.fingerprint, view))
    (held : runtime.documents.lookup key = some entry) (known : entry.fingerprint ≠ "")
    {body : Transcript} (loaded : transcript bodies view = .ok body) :
    entry = .of entry.fingerprint (Txcript.extract key body) := by
  obtain ⟨viewIn, picked, sameKey, sameFingerprint⟩ := wantedOf_mem want
  obtain ⟨document, documentKey, rfl, _, kept⟩ := sound.entries key entry held
  have told := agree view viewIn picked (by rw [sameFingerprint]; exact known) body loaded
  have extracted := kept known
  rw [sameKey, sameFingerprint] at told
  rw [told, ← documentKey, Document.entry, extracted]
  rfl

omit [DocumentCodec] in
theorem syncedEntry_eq_fresh_iff (sound : SoundRuntime contents repoKey runtime)
    (agree : BodiesAgree contents merged bodies) {key : DocKey} {fingerprint : String}
    {view : MergedView} (want : (wantedOf merged).lookup key = some (fingerprint, view))
    {body : Transcript} (loaded : transcript bodies view = .ok body) :
    syncedEntry bodies key (runtime.documents.lookup key) (fingerprint, view) =
        freshEntry bodies key fingerprint view ↔
      (fingerprint = "" → ∀ entry, runtime.documents.lookup key = some entry →
        entry.fingerprint = "" →
          entry.extracted = valueOf (Txcript.extract key body : Extracted)) := by
  have fresh : freshEntry bodies key fingerprint view =
      some (.of fingerprint (Txcript.extract key body) : DocEntry Extracted) := by
    rw [freshEntry, loaded]
  rw [syncedEntry, fresh]
  cases held : runtime.documents.lookup key with
  | none => simp
  | some entry =>
      by_cases same : entry.fingerprint = fingerprint
      · subst same
        have unchanged : (some entry).map (·.fingerprint) = some entry.fingerprint := rfl
        rw [if_pos unchanged]
        by_cases known : entry.fingerprint = ""
        · constructor
          · intro equal _ other present _
            cases present
            exact congrArg DocEntry.extracted (Option.some.inj equal)
          · intro unchanged
            have value := unchanged known entry rfl known
            congr 1
            exact congrArg (DocEntry.mk entry.fingerprint) value
        · have equal := held_eq_fresh sound agree want held known loaded
          constructor
          · intro _ unknown
            exact absurd unknown known
          · intro _
            exact congrArg some equal
      · rw [if_neg (by simpa using same), Option.or_some, Option.getD_some]
        constructor
        · intro _ unknown other present empty
          cases present
          exact absurd (empty.trans unknown.symm) same
        · intro _
          rfl

/-- After a sync the document map is that of the rebuild exactly when no
document held under the empty fingerprint has changed. -/
theorem sync_eq_rebuild_iff (run : FleetRun repoKey contents fleet)
    (running : fleet.runtimes machine = some runtime)
    (agree : BodiesAgree contents merged bodies) (loads : Loads bodies merged)
    (canWrite : Bool) (diskError : Option Error) :
    (∃ (snapshot : Snapshot Extracted) (stored : Stored),
      fromMerged repoKey merged bodies none (fleet.files machine) = (.ok snapshot, some stored) ∧
      ∀ key, (syncRuntime runtime merged bodies canWrite diskError
          (fleet.files machine)).1.documents.lookup key =
        snapshot.intoRuntime.documents.lookup key) ↔
      UnknownUnchanged bodies merged runtime := by
  have sound := run.sound
  have entries := sound.runtimes machine runtime running
  have synced : ∀ key, (syncRuntime runtime merged bodies canWrite diskError
      (fleet.files machine)).1.documents.lookup key = ((wantedOf merged).lookup key).bind
        (syncedEntry bodies key (runtime.documents.lookup key)) := by
    intro key
    rw [syncRuntime, commit_documents, sync_lookup]
  have body : ∀ {key fingerprint view},
      (wantedOf merged).lookup key = some (fingerprint, view) →
      ∃ body, transcript bodies view = .ok body := by
    intro key fingerprint view want
    obtain ⟨viewIn, picked, _, _⟩ := wantedOf_mem want
    exact loads view viewIn picked
  obtain ⟨snapshot, stored, rebuilt, fresh⟩ := fromMerged_lookup machine sound agree loads
  constructor
  · intro given key view want entry held unknown read loaded
    obtain ⟨other, otherStored, otherRebuilt, same⟩ := given
    rw [rebuilt] at otherRebuilt
    cases otherRebuilt
    have equal := same key
    rw [synced, fresh, want] at equal
    exact (syncedEntry_eq_fresh_iff entries agree want loaded).mp equal rfl entry held unknown
  · intro unchanged
    refine ⟨snapshot, stored, rebuilt, ?_⟩
    intro key
    rw [synced, fresh]
    cases want : (wantedOf merged).lookup key with
    | none => rfl
    | some entry =>
        obtain ⟨fingerprint, view⟩ := entry
        obtain ⟨read, loaded⟩ := body want
        refine (syncedEntry_eq_fresh_iff entries agree want loaded).mpr ?_
        intro unknown held present empty
        subst unknown
        exact unchanged key view want held present empty read loaded

end Agree

section Example

attribute [local instance] HarnessNames.snakeCase DocumentCodec.padded DocumentReader.plain
  Txcript.plain SnapshotCodec.plain

abbrev ExampleFleet := Fleet (DocKey × Transcript) (Snapshot (DocKey × Transcript) ⊕ Bytes)

def exampleContents : DocKey → String → Transcript :=
  fun _ _ => exampleTranscript "known"

/-- A database session without a fingerprint says nothing about its body. -/
theorem unknown_agree (rest : String) :
    BodiesAgree exampleContents [localView "session" ""] (exampleBodies rest) := by
  intro view member _ known
  cases List.mem_singleton.mp member
  exact absurd rfl known

/-- A server that has indexed one session without a fingerprint. -/
def indexedOnce : ExampleFleet :=
  (((fleetStep "repo" (Fleet.initial _ _) (.start 0 (.ok none) none)).bind fun fleet =>
    fleetStep "repo" fleet (.sync 0 [localView "session" ""] (exampleBodies "old") false none))).getD
      (Fleet.initial _ _)

theorem indexedOnce_run : FleetRun "repo" exampleContents indexedOnce := by
  have started : FleetRun "repo" exampleContents
      (((Fleet.initial _ _ : ExampleFleet).store 0 none).run 0 (Runtime.empty "repo")) := by
    have stepped : fleetStep "repo" (Fleet.initial _ _ : ExampleFleet) (.start 0 (.ok none) none) =
        some _ := rfl
    exact Transition.Run.refl.tail (fun plain found => by cases found) stepped
  have stepped : fleetStep "repo" (((Fleet.initial _ _ : ExampleFleet).store 0 none).run 0
      (Runtime.empty "repo")) (.sync 0 [localView "session" ""] (exampleBodies "old") false none) =
        some indexedOnce := rfl
  exact Transition.Run.tail started (by exact unknown_agree "old") stepped

def indexedRuntime : Runtime (DocKey × Transcript) :=
  (indexedOnce.runtimes 0).getD (Runtime.empty "repo")

theorem indexedRuntime_running : indexedOnce.runtimes 0 = some indexedRuntime := rfl

theorem sync_eq_rebuild_iff_indexed :
    (∃ (snapshot : Snapshot (DocKey × Transcript)) (stored : _ ⊕ Bytes),
      fromMerged "repo" [localView "session" ""] (exampleBodies "new") none
          (indexedOnce.files 0) = (.ok snapshot, some stored) ∧
      ∀ key, (syncRuntime indexedRuntime [localView "session" ""] (exampleBodies "new") false none
          (indexedOnce.files 0)).1.documents.lookup key =
        snapshot.intoRuntime.documents.lookup key) ↔
      UnknownUnchanged (exampleBodies "new") [localView "session" ""] indexedRuntime :=
  sync_eq_rebuild_iff indexedOnce_run indexedRuntime_running (unknown_agree "new")
    (exampleBodies_load "session" "" "new") false none

/-- The body behind the empty fingerprint changed: the rebuild sees it, the sync
keeps the stale document. -/
theorem sync_keeps_stale :
    FleetRun "repo" exampleContents indexedOnce ∧ indexedOnce.runtimes 0 = some indexedRuntime ∧
      BodiesAgree exampleContents [localView "session" ""] (exampleBodies "new") ∧
      Loads (exampleBodies "new") [localView "session" ""] ∧
      ¬ ∃ (snapshot : Snapshot (DocKey × Transcript)) (stored : _ ⊕ Bytes),
        fromMerged "repo" [localView "session" ""] (exampleBodies "new") none
            (indexedOnce.files 0) = (.ok snapshot, some stored) ∧
        ∀ key, (syncRuntime indexedRuntime [localView "session" ""] (exampleBodies "new") false none
            (indexedOnce.files 0)).1.documents.lookup key =
          snapshot.intoRuntime.documents.lookup key := by
  have agree := unknown_agree "new"
  have loads := exampleBodies_load "session" "" "new"
  refine ⟨indexedOnce_run, rfl, agree, loads, ?_⟩
  intro given
  obtain ⟨snapshot, stored, rebuilt, same⟩ := given
  obtain ⟨other, otherStored, otherRebuilt, fresh⟩ :=
    fromMerged_lookup 0 indexedOnce_run.sound agree loads
  rw [rebuilt] at otherRebuilt
  cases otherRebuilt
  have equal := same (localView "session" "").docKey
  rw [fresh, syncRuntime, commit_documents, sync_lookup] at equal
  have stale : some (some ((localView "session" "").docKey, exampleTranscript "old")) =
      some (some ((localView "session" "").docKey, exampleTranscript "new")) :=
    congrArg (Option.map DocEntry.extracted) equal
  exact absurd stale (by decide)

end Example

end AgentTranscript
