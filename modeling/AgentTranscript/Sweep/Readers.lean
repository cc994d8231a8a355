import AgentTranscript.Sweep.Stored
import AgentTranscript.Views.Listing

/-!
MCP servers that read the archive by a cached catalog, next to the ingest runs
and sweeps of other machines.
-/

set_option autoImplicit false

namespace AgentTranscript

open Loop VersionedCell

/-- `CATALOG_MAX_AGE`, 300 seconds. -/
def catalogMaxAge : DateTime := 300 * 1000000000

structure CatalogSlot where
  catalog : Catalog
  etag : Option ETag
  fetchedAt : DateTime
  deriving DecidableEq, Repr

/-- Where a server stands in `ensure_catalog`. -/
inductive ServerPhase where
  | idle
  | probing
  | touching
  | fetching
  | storing (catalog : Catalog) (etag : Option ETag)

/-- `replaced` keeps the earlier committed catalogs, with the time each was replaced. -/
structure ReaderWorld (Job Sweeper Server Blob : Type) where
  bucket : BucketWorld Job Sweeper Blob
  replaced : List (Catalog × DateTime)
  slots : Server → CatalogSlot
  servers : Server → ServerPhase

inductive ReaderAction (Job Sweeper Server : Type) where
  | bucket (action : BucketAction Job Sweeper)
  | request (server : Server)
  | probe (server : Server)
  | unreachable (server : Server)
  | touch (server : Server)
  | fetch (server : Server)
  | store (server : Server)

section Machine

variable {Job Sweeper Server Blob : Type}

def catalogFresh (now : DateTime) (slot : CatalogSlot) : Bool :=
  0 ≤ now - slot.fetchedAt && now - slot.fetchedAt < catalogMaxAge

def headEtag (cell : Cell Blob ETag) : Option ETag :=
  cell.content.map Prod.snd

variable [DecidableEq Server]

def ReaderWorld.setServer (world : ReaderWorld Job Sweeper Server Blob) (server : Server)
    (phase : ServerPhase) : ReaderWorld Job Sweeper Server Blob :=
  { world with servers := Function.update world.servers server phase }

def ReaderWorld.setSlot (world : ReaderWorld Job Sweeper Server Blob) (server : Server)
    (slot : CatalogSlot) : ReaderWorld Job Sweeper Server Blob where
  bucket := world.bucket
  replaced := world.replaced
  slots := Function.update world.slots server slot
  servers := Function.update world.servers server .idle

variable [HarnessNames] [DocumentCodec] [CatalogCodec Blob] [DecidableEq Job]
  [DecidableEq Sweeper]

def ReaderWorld.replacedBy (world : ReaderWorld Job Sweeper Server Blob) :
    BucketAction Job Sweeper → List (Catalog × DateTime)
  | .commit action =>
      if world.bucket.archive.stores action.call then
        match loadCatalog (getObject world.bucket.archive.cell) with
        | .ok (base, _) => (base, world.bucket.now) :: world.replaced
        | .error _ => world.replaced
      else world.replaced
  | _ => world.replaced

def readerStep (jobs : Job → IngestJob) (world : ReaderWorld Job Sweeper Server Blob) :
    ReaderAction Job Sweeper Server → Option (ReaderWorld Job Sweeper Server Blob)
  | .bucket action => (bucketStep jobs world.bucket action).map fun bucket =>
      { world with bucket := bucket, replaced := world.replacedBy action }
  | .request server =>
      if catalogFresh world.bucket.now (world.slots server) then some world
      else match world.servers server with
        | .idle => some (world.setServer server .probing)
        | _ => none
  | .probe server =>
      match world.servers server with
      | .probing =>
          if headEtag world.bucket.archive.cell = (world.slots server).etag then
            some (world.setServer server .touching)
          else some (world.setServer server .fetching)
      | _ => none
  | .unreachable server =>
      match world.servers server with
      | .probing => some (world.setServer server .idle)
      | _ => none
  | .touch server =>
      match world.servers server with
      | .touching => some (world.setSlot server
          { world.slots server with fetchedAt := world.bucket.now })
      | _ => none
  | .fetch server =>
      match world.servers server with
      | .fetching =>
          match loadCatalog (getObject world.bucket.archive.cell) with
          | .ok (catalog, etag) => some (world.setServer server (.storing catalog etag))
          | .error _ => some (world.setServer server .idle)
      | _ => none
  | .store server =>
      match world.servers server with
      | .storing catalog etag => some (world.setSlot server ⟨catalog, etag, world.bucket.now⟩)
      | _ => none

inductive ReaderMove (jobs : Job → IngestJob) (world : ReaderWorld Job Sweeper Server Blob) :
    ReaderAction Job Sweeper Server → ReaderWorld Job Sweeper Server Blob → Prop where
  | bucket {action : BucketAction Job Sweeper} {bucket : BucketWorld Job Sweeper Blob} :
      bucketStep jobs world.bucket action = some bucket →
      ReaderMove jobs world (.bucket action)
        { world with bucket := bucket, replaced := world.replacedBy action }
  | serve {server : Server} : catalogFresh world.bucket.now (world.slots server) = true →
      ReaderMove jobs world (.request server) world
  | turn {action : ReaderAction Job Sweeper Server} {server : Server} {phase : ServerPhase} :
      (∀ catalog etag, phase = .storing catalog etag →
        loadCatalog (getObject world.bucket.archive.cell) = .ok (catalog, etag)) →
      ReaderMove jobs world action (world.setServer server phase)
  | touch {server : Server} : world.servers server = .touching →
      ReaderMove jobs world (.touch server)
        (world.setSlot server { world.slots server with fetchedAt := world.bucket.now })
  | store {server : Server} {catalog : Catalog} {etag : Option ETag} :
      world.servers server = .storing catalog etag →
      ReaderMove jobs world (.store server)
        (world.setSlot server ⟨catalog, etag, world.bucket.now⟩)

theorem readerStep_move {jobs : Job → IngestJob}
    {world next : ReaderWorld Job Sweeper Server Blob} {action : ReaderAction Job Sweeper Server}
    (taken : readerStep jobs world action = some next) : ReaderMove jobs world action next := by
  cases action with
  | bucket inner =>
      obtain ⟨bucket, moved, shape⟩ := Option.map_eq_some_iff.mp taken
      exact shape ▸ .bucket moved
  | request server =>
      simp only [readerStep] at taken
      split at taken
      · rename_i fresh
        exact Option.some.inj taken ▸ .serve fresh
      · split at taken
        · exact Option.some.inj taken ▸ .turn (by simp)
        · cases taken
  | probe server =>
      simp only [readerStep] at taken
      split at taken
      · split at taken
        · exact Option.some.inj taken ▸ .turn (by simp)
        · exact Option.some.inj taken ▸ .turn (by simp)
      · cases taken
  | unreachable server =>
      simp only [readerStep] at taken
      split at taken
      · exact Option.some.inj taken ▸ .turn (by simp)
      · cases taken
  | touch server =>
      simp only [readerStep] at taken
      split at taken
      · rename_i phase
        exact Option.some.inj taken ▸ .touch phase
      · cases taken
  | fetch server =>
      simp only [readerStep] at taken
      split at taken
      · split at taken
        · rename_i loaded
          exact Option.some.inj taken ▸ .turn fun _ _ same => by cases same; exact loaded
        · exact Option.some.inj taken ▸ .turn (by simp)
      · cases taken
  | store server =>
      simp only [readerStep] at taken
      split at taken
      · rename_i phase
        exact Option.some.inj taken ▸ .store phase
      · cases taken

def ReaderWorld.start (bucket : BucketWorld Job Sweeper Blob) (slots : Server → CatalogSlot) :
    ReaderWorld Job Sweeper Server Blob where
  bucket := bucket
  replaced := []
  slots := slots
  servers := fun _ => .idle

end Machine

section Held

variable {Job Sweeper Server Blob : Type} [HarnessNames] [CatalogCodec Blob]

def Held (cell : Cell Blob ETag) (catalog : Catalog) (etag : Option ETag) : Prop :=
  ∃ seen, VersionedCell.Snapshot cell (commitPrecondition etag).guard seen ∧ Reads seen catalog

theorem Held.load {cell : Cell Blob ETag} {catalog : Catalog} {etag : Option ETag}
    (loaded : loadCatalog (getObject cell) = .ok (catalog, etag)) : Held cell catalog etag := by
  obtain ⟨read, guard⟩ := loadCatalog_ok loaded
  exact ⟨cell.value, guard ▸ VersionedCell.Snapshot.read cell, read⟩

/-- As long as the store answers with the same ETag, the copy is the committed catalog. -/
theorem Held.current {cell : Cell Blob ETag} {catalog : Catalog} {etag : Option ETag}
    (held : Held cell catalog etag) (same : headEtag cell = etag) : Reads cell.value catalog := by
  obtain ⟨seen, snapshot, read⟩ := held
  have holds : (commitPrecondition etag).guard.holds cell.content = true := by
    cases stored : cell.content with
    | none => simp [← same, headEtag, stored, commitPrecondition, Precondition.guard, Guard.holds]
    | some stored => simp [← same, headEtag, *, commitPrecondition, Precondition.guard, Guard.holds]
  exact snapshot.current holds ▸ read

variable [DocumentCodec] [DecidableEq Job] [DecidableEq Sweeper] {jobs : Job → IngestJob}

theorem Held.step {world next : BucketWorld Job Sweeper Blob} {action : BucketAction Job Sweeper}
    {catalog : Catalog} {etag : Option ETag} (held : Held world.archive.cell catalog etag)
    (taken : bucketStep jobs world action = some next) : Held next.archive.cell catalog etag := by
  cases bucketStep_move taken with
  | commit _ moved =>
      rcases commitStep_cases moved with kept | put
      · obtain ⟨phase, _, rfl⟩ := kept
        exact held
      · obtain ⟨_, pruned, body, _, _, _, unused, rfl⟩ := put
        obtain ⟨seen, snapshot, read⟩ := held
        exact ⟨seen, snapshot.write body unused, read⟩
  | tick => exact held
  | put => exact held
  | load => exact held
  | aim => exact held
  | list => exact held
  | visit => exact held
  | delete => exact held

/-- Every catalog that a server holds, or is about to, was read from the store. -/
structure Provenance (world : ReaderWorld Job Sweeper Server Blob) : Prop where
  slots : ∀ server, Held world.bucket.archive.cell (world.slots server).catalog
    (world.slots server).etag
  storing : ∀ server catalog etag, world.servers server = .storing catalog etag →
    Held world.bucket.archive.cell catalog etag

theorem Provenance.step [DecidableEq Server] {world next : ReaderWorld Job Sweeper Server Blob}
    (provenance : Provenance world) {action : ReaderAction Job Sweeper Server}
    (taken : readerStep jobs world action = some next) : Provenance next := by
  cases readerStep_move taken with
  | bucket moved =>
      exact ⟨fun server => (provenance.slots server).step moved,
        fun server catalog etag phase => (provenance.storing server catalog etag phase).step moved⟩
  | serve => exact provenance
  | @turn _ server phase loaded =>
      refine ⟨provenance.slots, ?_⟩
      intro other catalog etag stores
      by_cases same : other = server
      · subst same
        exact .load (loaded catalog etag (by simpa [ReaderWorld.setServer] using stores))
      · exact provenance.storing other catalog etag
          (by simpa [ReaderWorld.setServer, same] using stores)
  | @touch server =>
      refine ⟨?_, ?_⟩
      · intro other
        by_cases same : other = server
        · subst same
          simpa [ReaderWorld.setSlot] using provenance.slots other
        · simpa [ReaderWorld.setSlot, same] using provenance.slots other
      · intro other catalog etag stores
        by_cases same : other = server
        · simp [ReaderWorld.setSlot, same] at stores
        · exact provenance.storing other catalog etag
            (by simpa [ReaderWorld.setSlot, same] using stores)
  | @store server fetched tag phase =>
      refine ⟨?_, ?_⟩
      · intro other
        by_cases same : other = server
        · subst same
          simpa [ReaderWorld.setSlot] using provenance.storing other fetched tag phase
        · simpa [ReaderWorld.setSlot, same] using provenance.slots other
      · intro other catalog etag stores
        by_cases same : other = server
        · simp [ReaderWorld.setSlot, same] at stores
        · exact provenance.storing other catalog etag
            (by simpa [ReaderWorld.setSlot, same] using stores)

/-- In every run, a probe that finds the ETag unchanged proves that the cached
catalog is the committed one at that moment. -/
theorem readerRun_revalidates [DecidableEq Server] {allowed : ReaderWorld Job Sweeper Server Blob →
      ReaderAction Job Sweeper Server → Prop} {start world : ReaderWorld Job Sweeper Server Blob}
    (initially : Provenance start) (run : Transition.Run (readerStep jobs) allowed start world)
    {server : Server} (same : headEtag world.bucket.archive.cell = (world.slots server).etag) :
    Reads world.bucket.archive.cell.value (world.slots server).catalog := by
  have provenance : Provenance world :=
    run.invariant _ initially fun _ _ _ holds _ taken => holds.step taken
  exact (provenance.slots server).current same

end Held

section Picks

variable [HarnessNames]

def pickedKey (session : SessionRecord) : Option String :=
  match remoteView session with
  | .ok remote => if remote.ambiguous then none else some remote.objectKey
  | .error _ => none

def pickedKeys (catalog : Catalog) : List String :=
  catalog.sessions.filterMap pickedKey

theorem remoteView_objectKey {session : SessionRecord} {remote : RemoteView}
    (made : remoteView session = .ok remote) :
    ∃ revision ∈ session.revisions, revision.objectKey = remote.objectKey := by
  unfold remoteView at made
  split at made
  · cases made
  · obtain ⟨current, _, made⟩ := bind_ok made
    dsimp only at made
    split at made
    · cases made
    · rename_i revision located
      cases made
      exact ⟨revision, List.mem_of_getElem? located, rfl⟩

theorem pickedKeys_subset (catalog : Catalog) : pickedKeys catalog ⊆ objectKeys catalog := by
  intro key picked
  obtain ⟨session, member, found⟩ := List.mem_filterMap.mp picked
  unfold pickedKey at found
  split at found
  · rename_i remote made
    split at found
    · cases found
    · cases found
      obtain ⟨revision, included, named⟩ := remoteView_objectKey made
      exact mem_objectKeys.mpr ⟨session, member, revision, included, named⟩
  · cases found

theorem mem_pickedKeys {catalog : Catalog} {remotes : List RemoteView} {remote : RemoteView}
    (made : remoteViews catalog = .ok remotes) (member : remote ∈ remotes)
    (clear : remote.ambiguous = false) : remote.objectKey ∈ pickedKeys catalog := by
  obtain ⟨session, present, ok⟩ := (mem_of_mapM_ok made).mp member
  exact List.mem_filterMap.mpr ⟨session, present, by simp [pickedKey, ok, clear]⟩

omit [HarnessNames] in
theorem fromRemote_pick {remote : RemoteView} (picked : (fromRemote remote).pick = .remote) :
    remote.ambiguous = false ∧ (fromRemote remote).objectKey = some remote.objectKey := by
  cases tied : remote.ambiguous <;> simp_all [fromRemote]

omit [HarnessNames] in
theorem mergePair_pick {view : LocalView} {remote : RemoteView} {merged : MergedView}
    (shape : mergePair view remote = merged) (picked : merged.pick = .remote) :
    remote.ambiguous = false ∧ merged.objectKey = some remote.objectKey := by
  unfold mergePair at shape
  split at shape
  · cases shape
    cases picked
  · split at shape
    · cases shape
      cases picked
    · split at shape
      · cases shape
        cases picked
      · cases shape
        exact fromRemote_pick picked
      · cases shape
        cases picked

theorem merged_remote_pick {repoKey : String} {selected : Option HarnessId}
    {locals : List LocalView} {catalog : Catalog} {views : List MergedView} {view : MergedView}
    (listed : merged repoKey selected locals catalog = .ok views) (member : view ∈ views)
    (picked : view.pick = .remote) :
    ∃ key ∈ pickedKeys catalog, view.objectKey = some key := by
  obtain ⟨remotes, made, shape⟩ := bind_ok listed
  cases shape
  rcases mem_select.mp member with paired | unpaired
  · obtain ⟨localView, _, _, shape⟩ := paired
    unfold pairUp at shape
    split at shape
    · rename_i entry found
      obtain ⟨clear, named⟩ := mergePair_pick shape picked
      have remote := List.fst_mem_of_mem_zipIdx (twinOf_mem found).1
      exact ⟨_, mem_pickedKeys made remote clear, named⟩
    · split at shape
      · cases shape
        cases picked
      · cases shape
        cases picked
  · obtain ⟨entry, located, _, _, rfl⟩ := unpaired
    obtain ⟨clear, named⟩ := fromRemote_pick picked
    exact ⟨_, mem_pickedKeys made (List.fst_mem_of_mem_zipIdx located) clear, named⟩

end Picks

end AgentTranscript
