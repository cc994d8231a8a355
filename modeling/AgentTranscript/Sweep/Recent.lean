import AgentTranscript.Sweep.Readers

/-! A cached catalog stays readable for its maximal age, as long as sweeps leave
alone what was current that recently. -/

set_option autoImplicit false

namespace AgentTranscript

open VersionedCell

section Statement

variable {Job Sweeper Server Blob : Type} [HarnessNames]

def fetchBody (objects : String → Option StoredObject) (key : String) : Except Error Bytes :=
  match objects key with
  | none => .error (.msg s!"catalog points at missing object `{key}`")
  | some object => .ok object.blob

structure Readable (world : ReaderWorld Job Sweeper Server Blob) (server : Server) : Prop where
  kept : ∀ key ∈ pickedKeys (world.slots server).catalog,
    ∃ object, world.bucket.objects key = some object
  read : ∀ repoKey selected locals views,
    merged repoKey selected locals (world.slots server).catalog = .ok views →
    ∀ view ∈ views, view.pick = .remote → ∃ key body, view.objectKey = some key ∧
      fetchBody world.bucket.objects key = .ok body

/-- A sweep deletes an object only when no catalog has been replaced for `CATALOG_MAX_AGE`. -/
def Patient (world : ReaderWorld Job Sweeper Server Blob) : BucketAction Job Sweeper → Prop
  | .visit sweeper => ∀ live cutoff listed rest,
      world.bucket.sweeps sweeper = .deleting live cutoff (listed :: rest) →
      deletes live cutoff listed = true → ∀ entry ∈ world.replaced,
        entry.2 + catalogMaxAge ≤ world.bucket.now
  | _ => True

def ReaderPrompt (world : ReaderWorld Job Sweeper Server Blob) :
    ReaderAction Job Sweeper Server → Prop
  | .bucket action => Prompt world.bucket action
  | _ => True

variable [CatalogCodec Blob]

def CommittedWithin (world : ReaderWorld Job Sweeper Server Blob) (age : DateTime)
    (catalog : Catalog) : Prop :=
  Reads world.bucket.archive.cell.value catalog ∨
    ∃ since, (catalog, since) ∈ world.replaced ∧ world.bucket.now < since + age

def ReaderCareful (world : ReaderWorld Job Sweeper Server Blob) :
    ReaderAction Job Sweeper Server → Prop
  | .bucket action => Prompt world.bucket action ∧ Careful world.bucket action ∧
      Patient world action
  | _ => True

end Statement

section Invariant

variable {Job Sweeper Server Blob : Type} [HarnessNames] [CatalogCodec Blob]

structure ReaderInvariant (jobs : Job → IngestJob) (initial : Option Blob)
    (world : ReaderWorld Job Sweeper Server Blob) : Prop where
  bucket : BucketInvariant jobs initial world.bucket
  kept : ∀ entry ∈ world.replaced, world.bucket.now < entry.2 + catalogMaxAge →
    ∀ key ∈ pickedKeys entry.1, ∃ object, world.bucket.objects key = some object

theorem ReaderInvariant.readable {jobs : Job → IngestJob} {initial : Option Blob}
    {world : ReaderWorld Job Sweeper Server Blob} (invariant : ReaderInvariant jobs initial world)
    {server : Server} (recent : CommittedWithin world catalogMaxAge (world.slots server).catalog) :
    Readable world server := by
  have kept : ∀ key ∈ pickedKeys (world.slots server).catalog,
      ∃ object, world.bucket.objects key = some object := by
    intro key picked
    rcases recent with committed | replaced
    · exact invariant.bucket.stored _ committed key (pickedKeys_subset _ picked)
    · obtain ⟨since, member, young⟩ := replaced
      exact invariant.kept _ member young key picked
  refine ⟨kept, ?_⟩
  intro repoKey selected locals views listed view member picked
  obtain ⟨key, ours, named⟩ := merged_remote_pick listed member picked
  obtain ⟨object, found⟩ := kept key ours
  exact ⟨key, object.blob, named, by simp only [fetchBody, found]⟩

section Steps

variable [DocumentCodec] [DecidableEq Job] [DecidableEq Sweeper] {jobs : Job → IngestJob}

theorem bucketStep_now {world next : BucketWorld Job Sweeper Blob}
    {action : BucketAction Job Sweeper} (taken : bucketStep jobs world action = some next) :
    world.now ≤ next.now := by
  cases bucketStep_move taken with
  | tick forward => exact forward
  | put => exact le_rfl
  | commit => exact le_rfl
  | load => exact le_rfl
  | aim => exact le_rfl
  | list => exact le_rfl
  | visit => exact le_rfl
  | delete => exact le_rfl

theorem bucketStep_keeps {world next : BucketWorld Job Sweeper Blob}
    {action : BucketAction Job Sweeper} (taken : bucketStep jobs world action = some next)
    {key : String} {object : StoredObject} (found : world.objects key = some object) :
    (∃ later, next.objects key = some later) ∨ ∃ sweeper live cutoff listed rest,
      action = .visit sweeper ∧ world.sweeps sweeper = .deleting live cutoff (listed :: rest) ∧
      deletes live cutoff listed = true ∧ listed.key = key := by
  cases bucketStep_move taken with
  | put =>
      rw [upload_objects]
      split
      · exact .inl ⟨_, rfl⟩
      · exact .inl ⟨object, found⟩
  | @delete sweeper live cutoff listed rest phase dead =>
      by_cases same : listed.key = key
      · exact .inr ⟨sweeper, live, cutoff, listed, rest, rfl, phase, dead, same⟩
      · refine .inl ⟨object, ?_⟩
        simpa [BucketWorld.delete, BucketWorld.setSweep, Ne.symm same] using found
  | tick => exact .inl ⟨object, found⟩
  | commit => exact .inl ⟨object, found⟩
  | load => exact .inl ⟨object, found⟩
  | aim => exact .inl ⟨object, found⟩
  | list => exact .inl ⟨object, found⟩
  | visit => exact .inl ⟨object, found⟩

variable {initial : Option Blob} {world next : ReaderWorld Job Sweeper Server Blob}

omit [DecidableEq Job] [DecidableEq Sweeper] [DocumentCodec] in
theorem mem_replacedBy {action : BucketAction Job Sweeper} {entry : Catalog × DateTime}
    (member : entry ∈ world.replacedBy action) : entry ∈ world.replaced ∨
      Reads world.bucket.archive.cell.value entry.1 ∧ ∃ commit, action = .commit commit := by
  cases action with
  | commit commit =>
      simp only [ReaderWorld.replacedBy] at member
      split at member
      · split at member
        · rename_i base _ loaded
          rcases List.mem_cons.mp member with new | old
          · exact .inr ⟨new ▸ (loadCatalog_ok loaded).1, commit, rfl⟩
          · exact .inl old
        · exact .inl member
      · exact .inl member
  | tick => exact .inl member
  | put => exact .inl member
  | load => exact .inl member
  | aim => exact .inl member
  | list => exact .inl member
  | visit => exact .inl member

theorem ReaderInvariant.bucketStep (invariant : ReaderInvariant jobs initial world)
    {action : BucketAction Job Sweeper} (prompt : Prompt world.bucket action)
    (careful : Careful world.bucket action) (patient : Patient world action)
    {bucket : BucketWorld Job Sweeper Blob}
    (taken : AgentTranscript.bucketStep jobs world.bucket action = some bucket) :
    ReaderInvariant jobs initial
      { world with bucket := bucket, replaced := world.replacedBy action } where
  bucket := invariant.bucket.step prompt careful taken
  kept := by
    intro entry member young key picked
    have before : ∃ object, world.bucket.objects key = some object := by
      rcases mem_replacedBy member with earlier | committed
      · exact invariant.kept entry earlier ((bucketStep_now taken).trans_lt young) key picked
      · exact invariant.bucket.stored _ committed.1 key (pickedKeys_subset _ picked)
    obtain ⟨object, found⟩ := before
    rcases bucketStep_keeps taken found with later | deleted
    · exact later
    · obtain ⟨sweeper, live, cutoff, listed, rest, rfl, phase, dead, -⟩ := deleted
      have waited := patient live cutoff listed rest phase dead entry member
      exact absurd waited ((bucketStep_now taken).trans_lt young).not_ge

variable [DecidableEq Server]

theorem ReaderInvariant.step (invariant : ReaderInvariant jobs initial world)
    {action : ReaderAction Job Sweeper Server} (careful : ReaderCareful world action)
    (taken : readerStep jobs world action = some next) : ReaderInvariant jobs initial next := by
  cases readerStep_move taken with
  | bucket moved => exact invariant.bucketStep careful.1 careful.2.1 careful.2.2 moved
  | serve => exact invariant
  | turn => exact ⟨invariant.bucket, invariant.kept⟩
  | touch => exact ⟨invariant.bucket, invariant.kept⟩
  | store => exact ⟨invariant.bucket, invariant.kept⟩

/-- In every run whose sweeps are careful and patient, a server that holds a
catalog which was committed less than `CATALOG_MAX_AGE` ago can read from it. -/
theorem readerRun_readable {now : DateTime} {objects : String → Option StoredObject}
    {cell : Cell Blob ETag} {slots : Server → CatalogSlot}
    (initially : Stored (.start jobs now objects cell : BucketWorld Job Sweeper Blob))
    (run : Transition.Run (readerStep jobs) ReaderCareful
      (ReaderWorld.start (.start jobs now objects cell) slots) world) (server : Server)
    (recent : CommittedWithin world catalogMaxAge (world.slots server).catalog) :
    Readable world server := by
  have start : ReaderInvariant jobs cell.value (ReaderWorld.start (.start jobs now objects cell :
      BucketWorld Job Sweeper Blob) slots) :=
    ⟨start_invariant initially, by simp [ReaderWorld.start]⟩
  have invariant : ReaderInvariant jobs cell.value world :=
    run.invariant _ start fun _ _ _ holds careful taken => holds.step careful taken
  exact invariant.readable recent

end Steps

end Invariant

section Example

attribute [local instance] HarnessNames.snakeCase DocumentCodec.padded CatalogCodec.plain

theorem newer_scan : scan loadText (fun _ => []) .default [textRecord "repo" "abb" 2]
    (sentPiece "aaa" 1) = .ok ⟨[sentUpload "abb"], sentPiece "abb" 2,
      [(.codex, "a", textHash "abb"), (.codex, "a", textHash "aaa")], 0, [], {"repo"}⟩ := by
  decide +kernel

def newerJob (_ : Unit) : IngestJob :=
  .ofScan newer_scan

/-- The catalog has had the old object `aaa` for long; the server starts cold. -/
def servedStart : ReaderWorld Unit Unit Unit Catalog :=
  .start (.start newerJob (1000 * 1000000000) (oldObject (textKey "aaa"))
    (Cell.empty.write (sentPiece "aaa" 1) "first")) fun _ => ⟨Catalog.empty, none, 0⟩

theorem servedStart_stored : Stored servedStart.bucket := by
  intro catalog committed key member
  cases Except.ok.inj committed.1
  have only : ∀ key ∈ objectKeys (sentPiece "aaa" 1), key = textKey "aaa" := by decide +kernel
  exact ⟨⟨[], 0⟩, by rw [only key member]; rfl⟩

def refresh : List (ReaderAction Unit Unit Unit) :=
  [.request (), .probe (), .fetch (), .store ()]

def inBucket (actions : List (BucketAction Unit Unit)) : List (ReaderAction Unit Unit Unit) :=
  actions.map .bucket

instance (world : ReaderWorld Unit Unit Unit Catalog) (action : ReaderAction Unit Unit Unit) :
    Decidable (ReaderPrompt world action) :=
  match action with
  | .bucket action => inferInstanceAs (Decidable (Prompt world.bucket action))
  | .request _ | .probe _ | .unreachable _ | .touch _ | .fetch _ | .store _ =>
      inferInstanceAs (Decidable True)

/-- The server fetches, the newer body supersedes `aaa`, and a sweep removes it. -/
def supersededRun : Option (ReaderWorld Unit Unit Unit Catalog) :=
  Transition.execute (readerStep newerJob) ReaderPrompt servedStart
    (refresh ++ inBucket (soleCommit ++ sweepUntil (textKey "aaa") ++ [.visit ()]))

theorem supersededRun_loses : supersededRun.map (fun world =>
    (world.replaced, (world.slots ()).catalog, world.bucket.now,
      world.bucket.objects (textKey "aaa"))) =
    some ([(sentPiece "aaa" 1, 1000 * 1000000000)], sentPiece "aaa" 1, 1000 * 1000000000, none) := by
  decide +kernel

/-- The copy was the committed catalog until just now, and is not readable. -/
theorem readerRun_not_readable : ∃ world : ReaderWorld Unit Unit Unit Catalog,
    Stored servedStart.bucket ∧
    Transition.Run (readerStep newerJob) ReaderPrompt servedStart world ∧
    CommittedWithin world catalogMaxAge (world.slots ()).catalog ∧ ¬ Readable world () := by
  obtain ⟨world, finished, shape⟩ := Option.map_eq_some_iff.mp supersededRun_loses
  simp only [Prod.mk.injEq] at shape
  obtain ⟨replaced, copy, clock, gone⟩ := shape
  refine ⟨world, servedStart_stored, Transition.run_of_execute finished, .inr ?_, ?_⟩
  · exact ⟨1000 * 1000000000, by simp [replaced, copy], by rw [clock]; decide⟩
  · intro readable
    obtain ⟨object, found⟩ := readable.kept (textKey "aaa") (by rw [copy]; decide +kernel)
    rw [gone] at found
    cases found

/-- A computable condition under which a step is careful and patient. -/
def Waits (world : ReaderWorld Unit Unit Unit Catalog) : ReaderAction Unit Unit Unit → Bool
  | .bucket action => Prompt world.bucket action && Untouched world.bucket action &&
      match action, world.bucket.sweeps () with
      | .visit _, .deleting _ _ (_ :: _) => world.replaced.all fun entry =>
          entry.2 + catalogMaxAge ≤ world.bucket.now
      | _, _ => true
  | _ => true

theorem Waits.careful {world : ReaderWorld Unit Unit Unit Catalog}
    {action : ReaderAction Unit Unit Unit} (waits : Waits world action = true) :
    ReaderCareful world action := by
  cases action with
  | bucket action =>
      simp only [Waits, Bool.and_eq_true, decide_eq_true_eq] at waits
      obtain ⟨⟨prompt, untouched⟩, patient⟩ := waits
      refine ⟨prompt, Untouched.careful untouched, ?_⟩
      cases action with
      | visit sweeper =>
          intro live cutoff listed rest phase _ entry member
          simp only [phase, List.all_eq_true, decide_eq_true_eq] at patient
          exact patient entry member
      | tick => trivial
      | put => trivial
      | commit => trivial
      | load => trivial
      | aim => trivial
      | list => trivial
  | request => trivial
  | probe => trivial
  | unreachable => trivial
  | touch => trivial
  | fetch => trivial
  | store => trivial

def patientRun : Option (ReaderWorld Unit Unit Unit Catalog) :=
  Transition.execute (readerStep newerJob) (fun world action => Waits world action = true)
    servedStart (refresh ++ inBucket (soleCommit ++ [.tick (1301 * 1000000000)] ++
      sweepUntil (textKey "aaa") ++ [.visit ()]) ++ refresh)

theorem patientRun_finishes : patientRun.map (fun world =>
    (world.bucket.archive.cell.value, (world.slots ()).catalog,
      world.bucket.objects (textKey "aaa"))) =
    some (some (sentPiece "abb" 2), sentPiece "abb" 2, none) := by
  decide +kernel

theorem readerRun_readable_patient : ∃ world : ReaderWorld Unit Unit Unit Catalog,
    world.bucket.objects (textKey "aaa") = none ∧ Stored servedStart.bucket ∧
    Transition.Run (readerStep newerJob) ReaderCareful servedStart world ∧
    CommittedWithin world catalogMaxAge (world.slots ()).catalog ∧ Readable world () := by
  obtain ⟨world, finished, shape⟩ := Option.map_eq_some_iff.mp patientRun_finishes
  simp only [Prod.mk.injEq] at shape
  obtain ⟨stored, copy, gone⟩ := shape
  have run : Transition.Run (readerStep newerJob) ReaderCareful servedStart world :=
    (Transition.run_of_execute finished).weaken fun _ _ waits => Waits.careful waits
  have recent : CommittedWithin world catalogMaxAge (world.slots ()).catalog := by
    rw [copy]
    exact .inl (stored ▸ ⟨rfl, by decide +kernel⟩)
  exact ⟨world, gone, servedStart_stored, run, recent,
    readerRun_readable servedStart_stored run () recent⟩

end Example

end AgentTranscript
