import AgentTranscript.Ingest.Scan
import AgentTranscript.Text
import AgentTranscript.Remote.Commit

/-!
Ingest runs and sweeps of several machines on one bucket. A step is one request
to the store or one local computation of one run; all machines share a clock.
-/

set_option autoImplicit false

namespace AgentTranscript

open Loop

/-- `SWEEP_GRACE`, 600 seconds. -/
def sweepGrace : DateTime := 600 * 1000000000

def searchPrefix : String := "v1/search/"

structure StoredObject where
  blob : Bytes
  lastModified : DateTime
  deriving DecidableEq, Repr

structure Listed where
  key : String
  lastModified : Option DateTime
  deriving DecidableEq, Repr

structure Live where
  objects : List String
  indexes : List String
  deriving DecidableEq, Repr

def objectKeys (catalog : Catalog) : List String :=
  catalog.sessions.flatMap fun session => session.revisions.map (·.objectKey)

def isOrphan (key : String) (live : Live) : Bool :=
  if startsWith key objectsPrefix then !live.objects.contains key
  else if startsWith key searchPrefix then !live.indexes.contains key
  else false

structure IngestJob where
  uploads : List Upload
  incoming : Catalog
  covered : objectKeys incoming ⊆ uploads.map (·.objectKey)

/-- Where a sweep stands. The phases before `finished` name what is done next. -/
inductive SweepPhase where
  | loading
  | aiming (live : Live)
  | listing (live : Live) (cutoff : DateTime) (objects : List Listed)
  | deleting (live : Live) (cutoff : DateTime) (objects : List Listed)
  | finished (result : Except Error Unit)

/-- The clock, the bucket and the runs. `pending` is what a run has not uploaded
yet, and `firstPut` the time of its first upload. -/
structure BucketWorld (Job Sweeper Blob : Type) where
  now : DateTime
  objects : String → Option StoredObject
  archive : CommitWorld Job Blob
  pending : Job → List Upload
  firstPut : Job → Option DateTime
  sweeps : Sweeper → SweepPhase

/-- A page of a listing covers some keys; which, the store decides. -/
inductive BucketAction (Job Sweeper : Type) where
  | tick (later : DateTime)
  | put (job : Job)
  | commit (action : CommitAction Job)
  | load (sweeper : Sweeper)
  | aim (sweeper : Sweeper)
  | list (sweeper : Sweeper) (page : List String) (truncated : Bool)
  | visit (sweeper : Sweeper)

section Machine

variable {Job Sweeper Blob : Type}

def listPage (objects : String → Option StoredObject) (initial : String)
    (page : List String) : List Listed :=
  (page.filter (startsWith · initial)).filterMap fun key =>
    (objects key).map fun object => { key := key, lastModified := some object.lastModified }

def deletes (live : Live) (cutoff : DateTime) (object : Listed) : Bool :=
  isOrphan object.key live && object.lastModified.any (· < cutoff)

def BucketWorld.setSweep [DecidableEq Sweeper] (world : BucketWorld Job Sweeper Blob)
    (sweeper : Sweeper) (phase : SweepPhase) : BucketWorld Job Sweeper Blob :=
  { world with sweeps := Function.update world.sweeps sweeper phase }

def BucketWorld.delete (world : BucketWorld Job Sweeper Blob) (key : String) :
    BucketWorld Job Sweeper Blob :=
  { world with objects := Function.update world.objects key none }

def BucketWorld.upload [DecidableEq Job] (world : BucketWorld Job Sweeper Blob) (job : Job)
    (upload : Upload) (rest : List Upload) : BucketWorld Job Sweeper Blob :=
  { world with
    objects := Function.update world.objects upload.objectKey (some ⟨upload.blob, world.now⟩)
    pending := Function.update world.pending job rest
    firstPut := Function.update world.firstPut job ((world.firstPut job).or (some world.now)) }

variable [HarnessNames] [DocumentCodec] [CatalogCodec Blob] [DecidableEq Job]
  [DecidableEq Sweeper]

def repoDigest (repoKey : String) : String :=
  DocumentCodec.sha256Hex (asBytes repoKey)

def remoteKey (repoKey : String) : String :=
  searchPrefix ++ repoDigest repoKey

def Live.of (catalog : Catalog) : Live where
  objects := objectKeys catalog
  indexes := catalog.sessions.map fun session => remoteKey session.repoKey

/-- One step of the clock or of one run. A run that has ended takes no step. -/
def bucketStep (jobs : Job → IngestJob) (world : BucketWorld Job Sweeper Blob) :
    BucketAction Job Sweeper → Option (BucketWorld Job Sweeper Blob)
  | .tick later => if world.now ≤ later then some { world with now := later } else none
  | .put job =>
      match world.pending job with
      | [] => none
      | upload :: rest => some (world.upload job upload rest)
  | .commit action =>
      if world.pending action.call = [] then
        (commitStep (fun job => (jobs job).incoming) world.archive action).map fun archive =>
          { world with archive := archive }
      else none
  | .load sweeper =>
      match world.sweeps sweeper with
      | .loading =>
          match loadCatalog (getObject world.archive.cell) with
          | .ok (catalog, _) => some (world.setSweep sweeper (.aiming (.of catalog)))
          | .error error => some (world.setSweep sweeper (.finished (.error error)))
      | _ => none
  | .aim sweeper =>
      match world.sweeps sweeper with
      | .aiming live => some (world.setSweep sweeper (.listing live (world.now - sweepGrace) []))
      | _ => none
  | .list sweeper page truncated =>
      match world.sweeps sweeper with
      | .listing live cutoff objects =>
          let listed := objects ++ listPage world.objects "v1/" page
          if truncated then some (world.setSweep sweeper (.listing live cutoff listed))
          else some (world.setSweep sweeper (.deleting live cutoff listed))
      | _ => none
  | .visit sweeper =>
      match world.sweeps sweeper with
      | .deleting _ _ [] => some (world.setSweep sweeper (.finished (.ok ())))
      | .deleting live cutoff (object :: rest) =>
          let visited := world.setSweep sweeper (.deleting live cutoff rest)
          if deletes live cutoff object then some (visited.delete object.key) else some visited
      | _ => none

def BucketWorld.start (jobs : Job → IngestJob) (now : DateTime)
    (objects : String → Option StoredObject) (cell : VersionedCell.Cell Blob ETag) :
    BucketWorld Job Sweeper Blob where
  now := now
  objects := objects
  archive := .start (fun job => (jobs job).incoming) cell
  pending := fun job => (jobs job).uploads
  firstPut := fun _ => none
  sweeps := fun _ => .loading

def SweepPhase.aim? : SweepPhase → Option (Live × DateTime)
  | .listing live cutoff _ => some (live, cutoff)
  | .deleting live cutoff _ => some (live, cutoff)
  | _ => none

inductive BucketMove (jobs : Job → IngestJob) (world : BucketWorld Job Sweeper Blob) :
    BucketAction Job Sweeper → BucketWorld Job Sweeper Blob → Prop where
  | tick {later : DateTime} : world.now ≤ later →
      BucketMove jobs world (.tick later) { world with now := later }
  | put {job : Job} {sent : Upload} {rest : List Upload} : world.pending job = sent :: rest →
      BucketMove jobs world (.put job) (world.upload job sent rest)
  | commit {action : CommitAction Job} {archive : CommitWorld Job Blob} :
      world.pending action.call = [] →
      commitStep (fun job => (jobs job).incoming) world.archive action = some archive →
      BucketMove jobs world (.commit action) { world with archive := archive }
  | load {sweeper : Sweeper} {phase : SweepPhase} : phase.aim? = none →
      BucketMove jobs world (.load sweeper) (world.setSweep sweeper phase)
  | aim {sweeper : Sweeper} {live : Live} : world.sweeps sweeper = .aiming live →
      BucketMove jobs world (.aim sweeper)
        (world.setSweep sweeper (.listing live (world.now - sweepGrace) []))
  | list {sweeper : Sweeper} {page : List String} {truncated : Bool} {phase : SweepPhase} :
      phase.aim? = (world.sweeps sweeper).aim? →
      BucketMove jobs world (.list sweeper page truncated) (world.setSweep sweeper phase)
  | visit {sweeper : Sweeper} {phase : SweepPhase} :
      (∀ aim, phase.aim? = some aim → (world.sweeps sweeper).aim? = some aim) →
      BucketMove jobs world (.visit sweeper) (world.setSweep sweeper phase)
  | delete {sweeper : Sweeper} {live : Live} {cutoff : DateTime} {listed : Listed}
      {rest : List Listed} : world.sweeps sweeper = .deleting live cutoff (listed :: rest) →
      deletes live cutoff listed = true →
      BucketMove jobs world (.visit sweeper)
        ((world.setSweep sweeper (.deleting live cutoff rest)).delete listed.key)

theorem bucketStep_move {jobs : Job → IngestJob} {world next : BucketWorld Job Sweeper Blob}
    {action : BucketAction Job Sweeper} (taken : bucketStep jobs world action = some next) :
    BucketMove jobs world action next := by
  cases action with
  | tick later =>
      simp only [bucketStep, Option.ite_none_right_eq_some, Option.some.injEq] at taken
      obtain ⟨forward, rfl⟩ := taken
      exact .tick forward
  | put job =>
      cases waiting : world.pending job with
      | nil => simp [bucketStep, waiting] at taken
      | cons sent rest =>
          simp only [bucketStep, waiting, Option.some.injEq] at taken
          exact taken ▸ .put waiting
  | commit action =>
      simp only [bucketStep, Option.ite_none_right_eq_some, Option.map_eq_some_iff] at taken
      obtain ⟨finished, archive, moved, rfl⟩ := taken
      exact .commit finished moved
  | load sweeper =>
      simp only [bucketStep] at taken
      split at taken
      · split at taken
        · exact Option.some.inj taken ▸ .load rfl
        · exact Option.some.inj taken ▸ .load rfl
      · cases taken
  | aim sweeper =>
      simp only [bucketStep] at taken
      split at taken
      · rename_i live phase
        exact Option.some.inj taken ▸ .aim phase
      · cases taken
  | list sweeper page truncated =>
      simp only [bucketStep] at taken
      split at taken
      · rename_i live cutoff objects phase
        split at taken
        · exact Option.some.inj taken ▸ .list (by rw [phase]; rfl)
        · exact Option.some.inj taken ▸ .list (by rw [phase]; rfl)
      · cases taken
  | visit sweeper =>
      simp only [bucketStep] at taken
      split at taken
      · exact Option.some.inj taken ▸ .visit (by simp [SweepPhase.aim?])
      · rename_i live cutoff listed rest phase
        split at taken
        · rename_i deleted
          exact Option.some.inj taken ▸ .delete phase deleted
        · exact Option.some.inj taken ▸ .visit (by simp [phase, SweepPhase.aim?])
      · cases taken

end Machine

section Covered

theorem mem_objectKeys {catalog : Catalog} {key : String} : key ∈ objectKeys catalog ↔
    ∃ session ∈ catalog.sessions, ∃ revision ∈ session.revisions, revision.objectKey = key := by
  simp [objectKeys]

theorem objectKeys_merge [HarnessNames] {base incoming merged : Catalog}
    (accepted : mergeCatalogs base incoming = .ok merged) :
    objectKeys merged ⊆ objectKeys base ++ objectKeys incoming := by
  intro key member
  obtain ⟨session, present, revision, found, named⟩ := mem_objectKeys.mp member
  obtain ⟨source, either, _, _, included⟩ := (mergeCatalogs_origin accepted present).2 revision found
  apply List.mem_append.mpr
  rcases either with ours | theirs
  · exact .inl (mem_objectKeys.mpr ⟨source, ours, revision, included, named⟩)
  · exact .inr (mem_objectKeys.mpr ⟨source, theirs, revision, included, named⟩)

theorem objectKeys_prune (catalog : Catalog) :
    objectKeys (pruneToCurrent catalog) ⊆ objectKeys catalog := by
  intro key member
  obtain ⟨session, present, revision, found, named⟩ := mem_objectKeys.mp member
  obtain ⟨source, included, rfl⟩ := mem_pruneToCurrent.mp present
  exact mem_objectKeys.mpr ⟨source, included, revision,
    (pruneRevisions_spec source.revisions).sublist.subset found, named⟩

theorem objectKeys_update [HarnessNames] {base incoming updated : Catalog}
    (accepted : updateCatalog base incoming = .ok updated) :
    objectKeys updated ⊆ objectKeys base ++ objectKeys incoming := by
  obtain ⟨merged, succeeded, rfl⟩ := updateCatalog_ok_iff.mp accepted
  exact List.Subset.trans (objectKeys_prune merged) (objectKeys_merge succeeded)

theorem objectKey_startsWith {contentHash key : String} (named : objectKey contentHash = .ok key) :
    startsWith key objectsPrefix = true := by
  unfold objectKey at named
  split at named
  · cases named
  · cases named
    simp only [startsWith, String.toList_append, List.append_assoc, List.isPrefixOf_iff_prefix]
    exact List.prefix_append _ _

variable [HarnessNames] [DocumentCodec] {load : Load} {nonces : Nat → Nonce}

/-- Every object that the incoming catalog refers to is among the uploads. -/
def Scan.Covered (scan : Scan) : Prop :=
  objectKeys scan.incoming ⊆ scan.uploads.map (·.objectKey)

theorem Scan.Covered.source {current next : Scan} (covered : current.Covered)
    {record : SourceRecord} {repoKey : String}
    (accepted : scanSource load nonces current record repoKey = .ok next) : next.Covered := by
  unfold scanSource at accepted
  split at accepted
  · dsimp only at accepted
    split at accepted
    · cases accepted
      exact covered
    · obtain ⟨hash, _, accepted⟩ := bind_ok accepted
      split at accepted
      · cases accepted
        exact covered
      · obtain ⟨key, named, accepted⟩ := bind_ok accepted
        obtain ⟨blob, _, accepted⟩ := bind_ok accepted
        obtain ⟨revision, made, accepted⟩ := bind_ok accepted
        obtain ⟨incoming, merged, accepted⟩ := bind_ok accepted
        cases accepted
        obtain ⟨other, same, shape⟩ := bind_ok made
        cases shape
        cases Except.ok.inj (named.symm.trans same)
        apply List.Subset.trans (objectKeys_merge merged)
        rw [List.map_append]
        exact List.append_subset.mpr ⟨List.subset_append_of_subset_left _ covered,
          List.subset_append_of_subset_right _ (by simp [objectKeys, Catalog.piece])⟩
  · cases accepted
    exact covered
  · cases accepted
    exact covered

theorem Scan.Covered.record {current next : Scan} (covered : current.Covered)
    {record : SourceRecord} (accepted : scanRecord load nonces current record = .ok next) :
    next.Covered := by
  unfold scanRecord at accepted
  split at accepted
  · cases accepted
    exact covered
  · split at accepted
    · cases accepted
      exact covered
    · split at accepted
      · cases accepted
        exact covered
      · exact covered.source accepted

theorem scan_covered {report : Report} {records : List SourceRecord} {catalog : Catalog}
    {result : Scan} (accepted : scan load nonces report records catalog = .ok result) :
    result.Covered :=
  foldlM_ok_invariant accepted (fun _ current => current.Covered) (List.nil_subset _)
    fun _ _ _ _ _ covered stepped => covered.record stepped

/-- What an ingest run does once it has scanned. -/
def IngestJob.ofScan {report : Report} {records : List SourceRecord} {catalog : Catalog}
    {result : Scan} (accepted : scan load nonces report records catalog = .ok result) :
    IngestJob where
  uploads := result.uploads
  incoming := result.incoming
  covered := scan_covered accepted

end Covered

end AgentTranscript
