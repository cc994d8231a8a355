import AgentTranscript.Sweep.Basic
import AgentTranscript.Remote.CommitProperties
import AgentTranscript.Ingest.ScanProperties

/-! The objects of the committed catalog stay in the bucket, as long as sweeps
delete no object that was uploaded again behind their back. -/

set_option autoImplicit false

namespace AgentTranscript

open VersionedCell

section Statement

variable {Job Sweeper Blob : Type}

def CommitWorld.stores (world : CommitWorld Job Blob) (call : Job) : Bool :=
  match world.calls call with
  | .putting _ _ _ etag => (commitPrecondition etag).guard.holds world.cell.content
  | _ => false

/-- Every run commits less than the grace after its first upload. -/
def Prompt (world : BucketWorld Job Sweeper Blob) : BucketAction Job Sweeper → Prop
  | .commit action => world.archive.stores action.call = true →
      ∀ first ∈ world.firstPut action.call, world.now < first + sweepGrace
  | _ => True

instance (world : BucketWorld Job Sweeper Blob) (action : BucketAction Job Sweeper) :
    Decidable (Prompt world action) :=
  match action with
  | .commit action => inferInstanceAs (Decidable (world.archive.stores action.call = true →
      ∀ first ∈ world.firstPut action.call, world.now < first + sweepGrace))
  | .tick _ | .put _ | .load _ | .aim _ | .list _ _ _ | .visit _ => inferInstanceAs (Decidable True)

variable [HarnessNames] [CatalogCodec Blob]

/-- Every object that the committed catalog refers to is in the bucket. -/
def Stored (world : BucketWorld Job Sweeper Blob) : Prop :=
  ∀ catalog, Reads world.archive.cell.value catalog →
    ∀ key ∈ objectKeys catalog, ∃ object, world.objects key = some object

def Spares (world : BucketWorld Job Sweeper Blob) (live : Live) (cutoff : DateTime) : Prop :=
  ∀ catalog, Reads world.archive.cell.value catalog → ∀ key ∈ objectKeys catalog,
    key ∉ live.objects → ∀ object, world.objects key = some object →
      cutoff ≤ object.lastModified

/-- When a sweep reads the clock, no object that the catalog came to refer to
since the sweep loaded it is older than the grace; and an object that a sweep
deletes has not been uploaded again since it was listed. -/
def Careful (world : BucketWorld Job Sweeper Blob) : BucketAction Job Sweeper → Prop
  | .aim sweeper => ∀ live, world.sweeps sweeper = .aiming live →
      Spares world live (world.now - sweepGrace)
  | .visit sweeper => ∀ live cutoff listed rest,
      world.sweeps sweeper = .deleting live cutoff (listed :: rest) →
      deletes live cutoff listed = true → ∀ object, world.objects listed.key = some object →
        listed.lastModified = some object.lastModified
  | _ => True

end Statement

section Invariant

variable {Job Sweeper Blob : Type} {world : BucketWorld Job Sweeper Blob}

/-- The object of an upload of this run is younger than the run, and can only be
missing once the run is too old to commit. -/
def Uploaded (world : BucketWorld Job Sweeper Blob) (job : Job) (key : String) : Prop :=
  ∃ first ∈ world.firstPut job,
    (world.objects key = none → first + sweepGrace < world.now) ∧
    ∀ object, world.objects key = some object → first ≤ object.lastModified

variable [HarnessNames] [CatalogCodec Blob]

structure BucketInvariant (jobs : Job → IngestJob) (initial : Option Blob)
    (world : BucketWorld Job Sweeper Blob) : Prop where
  archive : CommitInvariant (fun job => (jobs job).incoming) initial world.archive
  stored : Stored world
  begun : ∀ job, ∀ first ∈ world.firstPut job, first ≤ world.now
  uploaded : ∀ job, ∀ upload ∈ (jobs job).uploads,
    upload ∈ world.pending job ∨ Uploaded world job upload.objectKey
  past : ∀ sweeper live cutoff, (world.sweeps sweeper).aim? = some (live, cutoff) →
    cutoff + sweepGrace ≤ world.now
  spared : ∀ sweeper live cutoff, (world.sweeps sweeper).aim? = some (live, cutoff) →
    Spares world live cutoff

end Invariant

section Steps

variable {Job Sweeper Blob : Type} {world : BucketWorld Job Sweeper Blob} [HarnessNames]
  [CatalogCodec Blob] {jobs : Job → IngestJob} {initial : Option Blob}

theorem BucketInvariant.tick (invariant : BucketInvariant jobs initial world) {later : DateTime}
    (forward : world.now ≤ later) :
    BucketInvariant jobs initial { world with now := later } where
  archive := invariant.archive
  stored := invariant.stored
  begun := fun job first started => (invariant.begun job first started).trans forward
  uploaded := by
    intro job upload member
    apply (invariant.uploaded job upload member).imp_right
    intro uploaded
    obtain ⟨first, started, missing, younger⟩ := uploaded
    exact ⟨first, started, fun gone => (missing gone).trans_le forward, younger⟩
  past := fun sweeper live cutoff aimed => (invariant.past sweeper live cutoff aimed).trans forward
  spared := invariant.spared

section Put

variable [DecidableEq Job] {job : Job} {sent : Upload} {rest : List Upload}

omit [HarnessNames] [CatalogCodec Blob] in
theorem upload_objects (key : String) :
    (world.upload job sent rest).objects key =
      if key = sent.objectKey then some ⟨sent.blob, world.now⟩ else world.objects key := by
  simp [BucketWorld.upload, Function.update_apply]

omit [HarnessNames] [CatalogCodec Blob] in
theorem upload_firstPut {other : Job} {first : DateTime}
    (started : first ∈ world.firstPut other) :
    first ∈ (world.upload job sent rest).firstPut other := by
  by_cases same : other = job
  · subst same
    simp only [BucketWorld.upload, Function.update_self, Option.mem_def] at started ⊢
    rw [started, Option.some_or]
  · simpa [BucketWorld.upload, same] using started

omit [HarnessNames] [CatalogCodec Blob] in
theorem Uploaded.upload {other : Job} {key : String} (uploaded : Uploaded world other key)
    (begun : ∀ first ∈ world.firstPut other, first ≤ world.now) :
    Uploaded (world.upload job sent rest) other key := by
  obtain ⟨first, started, missing, younger⟩ := uploaded
  refine ⟨first, upload_firstPut started, ?_, ?_⟩
  · intro gone
    rw [upload_objects] at gone
    split at gone
    · cases gone
    · exact missing gone
  · intro object found
    rw [upload_objects] at found
    split at found
    · cases found
      exact begun first started
    · exact younger object found

theorem BucketInvariant.upload (invariant : BucketInvariant jobs initial world)
    (next : world.pending job = sent :: rest) :
    BucketInvariant jobs initial (world.upload job sent rest) where
  archive := invariant.archive
  stored := by
    intro catalog committed key member
    obtain ⟨object, found⟩ := invariant.stored catalog committed key member
    rw [upload_objects]
    split
    · exact ⟨_, rfl⟩
    · exact ⟨object, found⟩
  begun := by
    intro other first started
    by_cases same : other = job
    · subst same
      simp only [BucketWorld.upload, Function.update_self, Option.mem_def,
        Option.or_eq_some_iff] at started
      rcases started with earlier | starts
      · exact invariant.begun other first earlier
      · exact (Option.some.inj starts.2).ge
    · exact invariant.begun other first (by simpa [BucketWorld.upload, same] using started)
  uploaded := by
    intro other extra member
    by_cases same : other = job
    · subst same
      rcases invariant.uploaded other extra member with waiting | uploaded
      · rw [next] at waiting
        rcases List.mem_cons.mp waiting with now | later
        · subst now
          refine .inr ⟨(world.firstPut other).getD world.now, ?_, ?_, ?_⟩
          · cases first : world.firstPut other <;> simp [BucketWorld.upload, first]
          · simp [upload_objects]
          · intro object found
            rw [upload_objects, if_pos rfl] at found
            cases found
            cases first : world.firstPut other with
            | none => exact le_rfl
            | some start => exact invariant.begun other start first
        · exact .inl (by simpa [BucketWorld.upload] using later)
      · exact .inr (uploaded.upload (invariant.begun other))
    · apply (invariant.uploaded other extra member).imp
      · intro waiting
        simpa [BucketWorld.upload, same] using waiting
      · exact fun uploaded => uploaded.upload (invariant.begun other)
  past := invariant.past
  spared := by
    intro sweeper live cutoff aimed catalog committed key member fresh object found
    rw [upload_objects] at found
    split at found
    · -- What is uploaded now is younger than any cutoff taken before.
      cases found
      have before := invariant.past sweeper live cutoff aimed
      have grace : (0 : DateTime) ≤ sweepGrace := by decide
      exact (le_add_of_nonneg_right grace).trans before
    · exact invariant.spared sweeper live cutoff aimed catalog committed key member fresh object
        found

end Put

section Commit

theorem BucketInvariant.keep (invariant : BucketInvariant jobs initial world)
    {archive : CommitWorld Job Blob}
    (holds : CommitInvariant (fun job => (jobs job).incoming) initial archive)
    (same : archive.cell = world.archive.cell) :
    BucketInvariant jobs initial { world with archive := archive } where
  archive := holds
  stored := fun catalog committed => invariant.stored catalog (same ▸ committed)
  begun := invariant.begun
  uploaded := invariant.uploaded
  past := invariant.past
  spared := fun sweeper live cutoff aimed catalog committed =>
    invariant.spared sweeper live cutoff aimed catalog (same ▸ committed)

/-- What is stored refers only to objects that were referred to before, or that
the run has uploaded and nobody deleted since. -/
theorem BucketInvariant.origin [DecidableEq Job] (invariant : BucketInvariant jobs initial world)
    {call : Job} {attempt : Nat} {pruned : Catalog} {body : Blob} {etag : Option ETag} {fresh : ETag}
    (phase : world.archive.calls call = .putting attempt pruned body etag)
    (holds : (commitPrecondition etag).guard.holds world.archive.cell.content = true)
    (finished : world.pending call = [])
    (prompt : ∀ first ∈ world.firstPut call, world.now < first + sweepGrace)
    {catalog : Catalog} (committed : Reads (world.archive.write call pruned body fresh).cell.value
      catalog) {key : String} (member : key ∈ objectKeys catalog) :
    (∃ base, Reads world.archive.cell.value base ∧ key ∈ objectKeys base) ∨
      ∃ first object, first ∈ world.firstPut call ∧ world.objects key = some object ∧
        first ≤ object.lastModified := by
  have known := invariant.archive.phases call
  rw [phase] at known
  obtain ⟨seen, base, snapshot, read, updated, decoded⟩ := known
  have same : catalog = pruned := Except.ok.inj (committed.1.symm.trans decoded)
  subst same
  rcases List.mem_append.mp (objectKeys_update updated member) with before | submitted
  · exact .inl ⟨base, snapshot.current holds ▸ read, before⟩
  · obtain ⟨upload, covers, named⟩ := List.mem_map.mp ((jobs call).covered submitted)
    obtain ⟨first, started, missing, younger⟩ :=
      (invariant.uploaded call upload covers).resolve_left (by simp [finished])
    rw [named] at missing younger
    have deadline := prompt first started
    cases found : world.objects key with
    | none =>
        exact absurd (missing found) deadline.not_gt
    | some object => exact .inr ⟨first, object, started, rfl, younger object found⟩

theorem BucketInvariant.write [DecidableEq Job] (invariant : BucketInvariant jobs initial world)
    {call : Job} {attempt : Nat} {pruned : Catalog} {body : Blob} {etag : Option ETag} {fresh : ETag}
    (phase : world.archive.calls call = .putting attempt pruned body etag)
    (holds : (commitPrecondition etag).guard.holds world.archive.cell.content = true)
    (unused : fresh ∉ world.archive.cell.issued) (finished : world.pending call = [])
    (prompt : ∀ first ∈ world.firstPut call, world.now < first + sweepGrace) :
    BucketInvariant jobs initial
      { world with archive := world.archive.write call pruned body fresh } where
  archive := invariant.archive.put phase holds unused
  stored := by
    intro catalog committed key member
    rcases invariant.origin phase holds finished prompt committed member with before | uploaded
    · obtain ⟨base, read, present⟩ := before
      exact invariant.stored base read key present
    · obtain ⟨first, object, _, found, _⟩ := uploaded
      exact ⟨object, found⟩
  begun := invariant.begun
  uploaded := invariant.uploaded
  past := invariant.past
  spared := by
    intro sweeper live cutoff aimed catalog committed key member fresh object found
    rcases invariant.origin phase holds finished prompt committed member with before | uploaded
    · obtain ⟨base, read, present⟩ := before
      exact invariant.spared sweeper live cutoff aimed base read key present fresh object found
    · -- The run is younger than the grace, and the cutoff is older than it.
      obtain ⟨first, other, started, present, younger⟩ := uploaded
      cases Option.some.inj (found.symm.trans present)
      have before := invariant.past sweeper live cutoff aimed
      have recent := before.trans_lt (prompt first started)
      exact (lt_of_add_lt_add_right recent).le.trans younger

end Commit

section Sweep

omit [HarnessNames] [CatalogCodec Blob] in
theorem deletes_iff {live : Live} {cutoff : DateTime} {listed : Listed} :
    deletes live cutoff listed = true ↔ isOrphan listed.key live = true ∧
      ∃ modified, listed.lastModified = some modified ∧ modified < cutoff := by
  cases known : listed.lastModified <;> simp [deletes, known]

theorem Reads.objectsPrefix {body : Option Blob} {catalog : Catalog} (read : Reads body catalog)
    {key : String} (member : key ∈ objectKeys catalog) : startsWith key objectsPrefix = true := by
  cases body with
  | none =>
      cases read
      cases member
  | some body =>
      obtain ⟨session, present, revision, found, rfl⟩ := mem_objectKeys.mp member
      obtain ⟨_, occupied⟩ := validate_ok_iff.mp read.2
      exact objectKey_startsWith ((occupied session present).2 revision found)

theorem BucketInvariant.setSweep [DecidableEq Sweeper]
    (invariant : BucketInvariant jobs initial world) {sweeper : Sweeper} {phase : SweepPhase}
    (aimed : ∀ live cutoff, phase.aim? = some (live, cutoff) →
      cutoff + sweepGrace ≤ world.now ∧ Spares world live cutoff) :
    BucketInvariant jobs initial (world.setSweep sweeper phase) where
  archive := invariant.archive
  stored := invariant.stored
  begun := invariant.begun
  uploaded := invariant.uploaded
  past := by
    intro other live cutoff aims
    by_cases same : other = sweeper
    · subst same
      exact (aimed live cutoff (by simpa [BucketWorld.setSweep] using aims)).1
    · exact invariant.past other live cutoff (by simpa [BucketWorld.setSweep, same] using aims)
  spared := by
    intro other live cutoff aims
    by_cases same : other = sweeper
    · subst same
      exact (aimed live cutoff (by simpa [BucketWorld.setSweep] using aims)).2
    · exact invariant.spared other live cutoff (by simpa [BucketWorld.setSweep, same] using aims)

theorem BucketInvariant.delete (invariant : BucketInvariant jobs initial world) {live : Live}
    {cutoff : DateTime} {listed : Listed} (past : cutoff + sweepGrace ≤ world.now)
    (spared : Spares world live cutoff) (deleted : deletes live cutoff listed = true)
    (untouched : ∀ object, world.objects listed.key = some object →
      listed.lastModified = some object.lastModified) :
    BucketInvariant jobs initial (world.delete listed.key) := by
  obtain ⟨orphan, modified, known, older⟩ := deletes_iff.mp deleted
  have aged : ∀ object, world.objects listed.key = some object →
      object.lastModified < cutoff := by
    intro object found
    cases Option.some.inj (known.symm.trans (untouched object found))
    exact older
  have unreferenced : ∀ catalog, Reads world.archive.cell.value catalog →
      listed.key ∉ objectKeys catalog := by
    intro catalog committed member
    obtain ⟨object, found⟩ := invariant.stored catalog committed listed.key member
    have dead : listed.key ∉ live.objects := by
      simpa [isOrphan, committed.objectsPrefix member] using orphan
    exact absurd (aged object found)
      (spared catalog committed listed.key member dead object found).not_gt
  refine ⟨invariant.archive, ?_, invariant.begun, ?_, invariant.past, ?_⟩
  · intro catalog committed key member
    have other : key ≠ listed.key := fun same => unreferenced catalog committed (same ▸ member)
    simpa [BucketWorld.delete, other] using invariant.stored catalog committed key member
  · intro job upload member
    apply (invariant.uploaded job upload member).imp_right
    intro uploaded
    obtain ⟨first, started, missing, younger⟩ := uploaded
    by_cases same : upload.objectKey = listed.key
    · rw [same] at missing younger ⊢
      refine ⟨first, started, ?_, by simp [BucketWorld.delete]⟩
      intro _
      cases found : world.objects listed.key with
      | none => exact missing found
      | some object =>
          have early := (younger object found).trans_lt (aged object found)
          exact (add_lt_add_left early sweepGrace).trans_le past
    · exact ⟨first, started, by simpa [BucketWorld.delete, same] using missing,
        by simpa [BucketWorld.delete, same] using younger⟩
  · intro sweeper other bound aimed catalog committed key member fresh object found
    by_cases same : key = listed.key
    · simp [BucketWorld.delete, same] at found
    · exact invariant.spared sweeper other bound aimed catalog committed key member fresh object
        (by simpa [BucketWorld.delete, same] using found)

end Sweep

section Run

theorem BucketInvariant.commit [DecidableEq Job] (invariant : BucketInvariant jobs initial world)
    {action : CommitAction Job} {archive : CommitWorld Job Blob}
    (finished : world.pending action.call = [])
    (prompt : world.archive.stores action.call = true →
      ∀ first ∈ world.firstPut action.call, world.now < first + sweepGrace)
    (taken : commitStep (fun job => (jobs job).incoming) world.archive action = some archive) :
    BucketInvariant jobs initial { world with archive := archive } := by
  have holds := invariant.archive.step taken
  rcases commitStep_cases taken with moved | put
  · obtain ⟨phase, _, rfl⟩ := moved
    exact invariant.keep holds rfl
  · obtain ⟨attempt, pruned, body, etag, phase, accepted, unused, rfl⟩ := put
    have stores : world.archive.stores action.call = true := by
      simp only [CommitWorld.stores, phase, accepted]
    exact invariant.write phase accepted unused finished (prompt stores)

theorem BucketInvariant.aimed (invariant : BucketInvariant jobs initial world) (sweeper : Sweeper)
    {live : Live} {cutoff : DateTime} (aims : (world.sweeps sweeper).aim? = some (live, cutoff)) :
    cutoff + sweepGrace ≤ world.now ∧ Spares world live cutoff :=
  ⟨invariant.past sweeper live cutoff aims, invariant.spared sweeper live cutoff aims⟩

theorem BucketInvariant.step [DocumentCodec] [DecidableEq Job] [DecidableEq Sweeper]
    {next : BucketWorld Job Sweeper Blob} (invariant : BucketInvariant jobs initial world)
    {action : BucketAction Job Sweeper} (prompt : Prompt world action)
    (careful : Careful world action) (taken : bucketStep jobs world action = some next) :
    BucketInvariant jobs initial next := by
  cases bucketStep_move taken with
  | tick forward => exact invariant.tick forward
  | put waiting => exact invariant.upload waiting
  | commit finished moved => exact invariant.commit finished prompt moved
  | load blind =>
      apply invariant.setSweep
      intro live cutoff aims
      rw [blind] at aims
      cases aims
  | aim phase =>
      apply invariant.setSweep
      intro _ _ aims
      cases aims
      exact ⟨(sub_add_cancel _ _).le, careful _ phase⟩
  | list same =>
      apply invariant.setSweep
      intro live cutoff aims
      exact invariant.aimed _ (same ▸ aims)
  | visit earlier =>
      apply invariant.setSweep
      intro live cutoff aims
      exact invariant.aimed _ (earlier _ aims)
  | @delete sweeper live cutoff listed rest phase deleted =>
      have aimed := invariant.aimed sweeper (congrArg SweepPhase.aim? phase)
      have visited : BucketInvariant jobs initial
          (world.setSweep sweeper (.deleting live cutoff rest)) := by
        apply invariant.setSweep
        intro _ _ aims
        cases aims
        exact aimed
      exact visited.delete aimed.1 aimed.2 deleted (careful live cutoff listed rest phase deleted)

theorem start_invariant {now : DateTime} {objects : String → Option StoredObject}
    {cell : Cell Blob ETag} (initially : Stored (.start jobs now objects cell : BucketWorld Job Sweeper Blob)) :
    BucketInvariant jobs cell.value
      (.start jobs now objects cell : BucketWorld Job Sweeper Blob) where
  archive := commitStart_invariant _ cell
  stored := initially
  begun := by simp [BucketWorld.start]
  uploaded := fun job upload member => .inl member
  past := by simp [BucketWorld.start, SweepPhase.aim?]
  spared := by simp [BucketWorld.start, SweepPhase.aim?]

end Run

end Steps

section Statement

variable {Job Sweeper Blob : Type} [DecidableEq Job] [DecidableEq Sweeper] [HarnessNames]
  [DocumentCodec] [CatalogCodec Blob]

theorem bucketRun_invariant {jobs : Job → IngestJob} {now : DateTime}
    {objects : String → Option StoredObject} {cell : Cell Blob ETag}
    {world : BucketWorld Job Sweeper Blob}
    (initially : Stored (.start jobs now objects cell : BucketWorld Job Sweeper Blob))
    (run : Transition.Run (bucketStep jobs) (fun world action => Prompt world action ∧
      Careful world action) (.start jobs now objects cell) world) :
    BucketInvariant jobs cell.value world :=
  run.invariant _ (start_invariant initially) fun _ _ _ holds permitted taken =>
    holds.step permitted.1 permitted.2 taken

/-- In every run of prompt ingest runs and careful sweeps, the objects of the
committed catalog are in the bucket all the time. -/
theorem bucketRun_stored {jobs : Job → IngestJob} {now : DateTime}
    {objects : String → Option StoredObject} {cell : Cell Blob ETag}
    {world : BucketWorld Job Sweeper Blob}
    (initially : Stored (.start jobs now objects cell : BucketWorld Job Sweeper Blob))
    (run : Transition.Run (bucketStep jobs) (fun world action => Prompt world action ∧
      Careful world action) (.start jobs now objects cell) world) : Stored world :=
  (bucketRun_invariant initially run).stored

/-- A computable condition under which a step is careful. -/
def Untouched (world : BucketWorld Job Sweeper Blob) : BucketAction Job Sweeper → Bool
  | .aim sweeper =>
      match world.sweeps sweeper, loadCatalog (getObject world.archive.cell) with
      | .aiming live, .ok (catalog, _) => (objectKeys catalog).all fun key => key ∈ live.objects
      | _, _ => false
  | .visit sweeper =>
      match world.sweeps sweeper with
      | .deleting _ _ (listed :: _) => (world.objects listed.key).all fun object =>
          listed.lastModified = some object.lastModified
      | _ => true
  | _ => true

omit [DecidableEq Job] [DecidableEq Sweeper] [DocumentCodec] in
theorem Untouched.careful {world : BucketWorld Job Sweeper Blob} {action : BucketAction Job Sweeper}
    (untouched : Untouched world action = true) : Careful world action := by
  cases action with
  | aim sweeper =>
      intro live phase catalog committed key member fresh
      cases loaded : loadCatalog (getObject world.archive.cell) with
      | error error => simp [Untouched, phase, loaded] at untouched
      | ok found =>
          cases (loadCatalog_ok loaded).1.unique committed
          simp only [Untouched, phase, loaded, List.all_eq_true, decide_eq_true_eq] at untouched
          exact absurd (untouched key member) fresh
  | visit sweeper =>
      intro live cutoff listed rest phase _ object found
      simpa [Untouched, phase, found] using untouched
  | tick => trivial
  | put => trivial
  | commit => trivial
  | load => trivial
  | list => trivial

end Statement

section Example

attribute [local instance] HarnessNames.snakeCase DocumentCodec.padded CatalogCodec.plain

def textKey (text : String) : String :=
  (Revision.bare (textHash text) 0).objectKey

def sentUpload (text : String) : Upload where
  objectKey := textKey text
  blob := text.toList.map fun char => UInt8.ofNat char.toNat

def sentPiece (text : String) (updatedAt : DateTime) : Catalog :=
  .piece "repo" .codex "a" { Revision.bare (textHash text) updatedAt with size := text.length }

theorem sole_scan : scan loadText (fun _ => []) .default [textRecord "repo" "aaa" 1]
    Catalog.empty = .ok ⟨[sentUpload "aaa"], sentPiece "aaa" 1, [(.codex, "a", textHash "aaa")], 0,
      [], {"repo"}⟩ := by
  decide +kernel

def soleJob (_ : Unit) : IngestJob :=
  .ofScan sole_scan

def oldObject (key object : String) : Option StoredObject :=
  if object = key then some ⟨[], 0⟩ else none

def soleStart (key : String) : BucketWorld Unit Unit Catalog :=
  .start soleJob (1000 * 1000000000) (oldObject key) Cell.empty

theorem soleStart_stored (key : String) : Stored (soleStart key) := by
  intro catalog committed key member
  cases committed
  cases member

def soleCommit : List (BucketAction Unit Unit) :=
  .put () :: List.replicate 4 (.commit ⟨(), [], "etag"⟩)

def sweepUntil (key : String) : List (BucketAction Unit Unit) :=
  [.load (), .aim (), .list () [key] false]

/-- The object is uploaded and committed between its listing and its deletion. -/
def lateRun : Option (BucketWorld Unit Unit Catalog) :=
  Transition.execute (bucketStep soleJob) Prompt (soleStart (textKey "aaa"))
    (sweepUntil (textKey "aaa") ++ soleCommit ++ [.visit ()])

theorem lateRun_loses : lateRun.map (fun world =>
    (world.archive.cell.value, world.objects (textKey "aaa"))) =
      some (some (sentPiece "aaa" 1), none) := by
  decide +kernel

theorem bucketRun_not_stored : ∃ world : BucketWorld Unit Unit Catalog,
    Stored (soleStart (textKey "aaa")) ∧
    Transition.Run (bucketStep soleJob) Prompt (soleStart (textKey "aaa")) world ∧
    ¬ Stored world := by
  obtain ⟨world, finished, shape⟩ := Option.map_eq_some_iff.mp lateRun_loses
  obtain ⟨catalog, gone⟩ := Prod.mk.inj shape
  refine ⟨world, soleStart_stored _, Transition.run_of_execute finished, ?_⟩
  intro stored
  have committed : Reads world.archive.cell.value (sentPiece "aaa" 1) := by
    rw [catalog]
    exact ⟨rfl, by decide +kernel⟩
  obtain ⟨object, found⟩ := stored _ committed (textKey "aaa") (by decide +kernel)
  rw [gone] at found
  cases found

/-- The sweep deletes another old object while the run uploads and commits its own. -/
def tidyRun : Option (BucketWorld Unit Unit Catalog) :=
  Transition.execute (bucketStep soleJob)
    (fun world action => Prompt world action ∧ Untouched world action = true)
    (soleStart "v1/objects/old")
    (sweepUntil "v1/objects/old" ++ soleCommit ++ [.visit (), .visit ()])

theorem tidyRun_finishes : tidyRun.map (fun world =>
    (world.archive.cell.value, world.objects "v1/objects/old")) =
      some (some (sentPiece "aaa" 1), none) := by
  decide +kernel

theorem bucketRun_stored_tidy : ∃ world : BucketWorld Unit Unit Catalog,
    world.archive.cell.value = some (sentPiece "aaa" 1) ∧ world.objects "v1/objects/old" = none ∧
    Stored (soleStart "v1/objects/old") ∧
    Transition.Run (bucketStep soleJob) (fun world action => Prompt world action ∧
      Careful world action) (soleStart "v1/objects/old") world ∧ Stored world := by
  obtain ⟨world, finished, shape⟩ := Option.map_eq_some_iff.mp tidyRun_finishes
  obtain ⟨catalog, gone⟩ := Prod.mk.inj shape
  have run : Transition.Run (bucketStep soleJob) (fun world action => Prompt world action ∧
      Careful world action) (soleStart "v1/objects/old") world :=
    (Transition.run_of_execute finished).weaken fun _ _ permitted =>
      And.imp_right Untouched.careful permitted
  exact ⟨world, catalog, gone, soleStart_stored _, run, bucketRun_stored (soleStart_stored _) run⟩

end Example

end AgentTranscript
