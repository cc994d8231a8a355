import AgentTranscript.Remote.Commit

/-! Concurrent commits are serializable: the stored catalogs are the incoming
catalogs of the successful calls, applied one at a time. -/

set_option autoImplicit false

namespace AgentTranscript

open Loop VersionedCell

variable [HarnessNames] {Call Blob : Type} [CatalogCodec Blob]

theorem loadCatalog_ok {cell : Cell Blob ETag} {base : Catalog} {etag : Option ETag}
    (loaded : loadCatalog (getObject cell) = .ok (base, etag)) :
    Reads cell.value base ∧ (commitPrecondition etag).guard = cell.readGuard := by
  cases found : cell.content with
  | none =>
      simp only [getObject, found, Option.map_none, loadCatalog, Except.ok.injEq,
        Prod.mk.injEq] at loaded
      obtain ⟨rfl, rfl⟩ := loaded
      simp [Reads, Cell.value, Cell.readGuard, found, commitPrecondition, Precondition.guard]
  | some stored =>
      simp only [getObject, found, Option.map_some, loadCatalog] at loaded
      obtain ⟨catalog, decoded, rest⟩ := bind_ok loaded
      obtain ⟨_, valid, shape⟩ := bind_ok rest
      cases shape
      exact ⟨by simpa [Reads, Cell.value, found] using ⟨decoded, valid⟩,
        by simp [Cell.readGuard, found, commitPrecondition, Precondition.guard]⟩

theorem Reads.unique {body : Option Blob} {left right : Catalog} (one : Reads body left)
    (other : Reads body right) : left = right := by
  cases body with
  | none => exact one.trans other.symm
  | some body => exact Except.ok.inj (one.1.symm.trans other.1)

variable [DecidableEq Call]

inductive CommitMove (incoming : Call → Catalog) (world : CommitWorld Call Blob) (call : Call) :
    CommitPhase Blob → Prop where
  | read {base : Catalog} {etag : Option ETag} :
      world.calls call = .reading → loadCatalog (getObject world.cell) = .ok (base, etag) →
      CommitMove incoming world call (.returned (.ok base))
  | load {attempt : Nat} {base : Catalog} {etag : Option ETag} :
      world.calls call = .loading attempt →
      loadCatalog (getObject world.cell) = .ok (base, etag) →
      CommitMove incoming world call (.merging attempt base etag)
  | merge {attempt : Nat} {base merged : Catalog} {etag : Option ETag} :
      world.calls call = .merging attempt base etag →
      mergeCatalogs base (incoming call) = .ok merged →
      CommitMove incoming world call (.pruning attempt merged etag)
  | prune {attempt : Nat} {merged : Catalog} {body : Blob} {etag : Option ETag} {nonce : Nonce} :
      world.calls call = .pruning attempt merged etag →
      CatalogCodec.encode nonce (pruneToCurrent merged) = .ok body →
      CommitMove incoming world call (.putting attempt (pruneToCurrent merged) body etag)
  | retry {attempt : Nat} {pruned : Catalog} {body : Blob} {etag : Option ETag} :
      world.calls call = .putting attempt pruned body etag → attempt < 5 →
      CommitMove incoming world call (.loading (attempt + 1))
  | fail {error : Error} : (∀ result, world.calls call ≠ .returned result) →
      CommitMove incoming world call (.returned (.error error))

/-- A step moves its own call and nothing else, or is the successful PUT of that call. -/
theorem commitStep_cases {incoming : Call → Catalog} {world next : CommitWorld Call Blob}
    {action : CommitAction Call} (taken : commitStep incoming world action = some next) :
    (∃ phase, CommitMove incoming world action.call phase ∧
      next = world.setPhase action.call phase) ∨
    ∃ attempt pruned body etag, world.calls action.call = .putting attempt pruned body etag ∧
      (commitPrecondition etag).guard.holds world.cell.content = true ∧
      action.etag ∉ world.cell.issued ∧ next = world.write action.call pruned body action.etag := by
  unfold commitStep at taken
  cases phase : world.calls action.call with
  | reading =>
      simp only [phase] at taken
      cases loaded : loadCatalog (getObject world.cell) with
      | error error =>
          simp only [loaded, Option.some.injEq] at taken
          exact .inl ⟨_, .fail (by simp [phase]), taken.symm⟩
      | ok found =>
          simp only [loaded, Option.some.injEq] at taken
          exact .inl ⟨_, .read phase loaded, taken.symm⟩
  | loading attempt =>
      simp only [phase] at taken
      cases loaded : loadCatalog (getObject world.cell) with
      | error error =>
          simp only [loaded, Option.some.injEq] at taken
          exact .inl ⟨_, .fail (by simp [phase]), taken.symm⟩
      | ok found =>
          simp only [loaded, Option.some.injEq] at taken
          exact .inl ⟨_, .load phase loaded, taken.symm⟩
  | merging attempt base etag =>
      simp only [phase] at taken
      cases merge : mergeCatalogs base (incoming action.call) with
      | error error =>
          simp only [merge, Option.some.injEq] at taken
          exact .inl ⟨_, .fail (by simp [phase]), taken.symm⟩
      | ok merged =>
          simp only [merge, Option.some.injEq] at taken
          exact .inl ⟨_, .merge phase merge, taken.symm⟩
  | pruning attempt merged etag =>
      simp only [phase] at taken
      cases encoded :
          (CatalogCodec.encode action.nonce (pruneToCurrent merged) : Except Error Blob) with
      | error error =>
          simp only [encoded, Option.some.injEq] at taken
          exact .inl ⟨_, .fail (by simp [phase]), taken.symm⟩
      | ok body =>
          simp only [encoded, Option.some.injEq] at taken
          exact .inl ⟨_, .prune phase encoded, taken.symm⟩
  | putting attempt pruned body etag =>
      simp only [phase] at taken
      split at taken
      · rename_i holds
        split at taken
        · cases taken
        · rename_i fresh
          cases taken
          exact .inr ⟨attempt, pruned, body, etag, rfl, holds, fresh, rfl⟩
      · split at taken
        · rename_i more
          cases taken
          exact .inl ⟨_, .retry phase more, rfl⟩
        · cases taken
          exact .inl ⟨_, .fail (by simp [phase]), rfl⟩
  | returned result => simp [phase] at taken

section Serial

theorem serialCatalogs_snoc {base incoming next : Catalog} {earlier stored : List Catalog}
    (applied : serialCatalogs base earlier = .ok stored)
    (accepted : updateCatalog (stored.getLastD base) incoming = .ok next) :
    serialCatalogs base (earlier ++ [incoming]) = .ok (stored ++ [next]) := by
  induction earlier generalizing base stored with
  | nil =>
      cases applied
      have single : updateCatalog base incoming = .ok next := accepted
      simp [serialCatalogs, single]
  | cons head tail ih =>
      obtain ⟨first, updated, rest⟩ := bind_ok applied
      obtain ⟨later, recursive, shape⟩ := bind_ok rest
      cases shape
      have last : (first :: later).getLastD base = later.getLastD first := by
        cases later <;> rfl
      rw [last] at accepted
      simp [serialCatalogs, updated, ih recursive accepted]

theorem serialCatalogs_advances {base : Catalog} {incoming stored : List Catalog}
    (applied : serialCatalogs base incoming = .ok stored) :
    (base :: stored).Pairwise Advances := by
  induction incoming generalizing base stored with
  | nil =>
      cases applied
      exact List.pairwise_singleton _ _
  | cons head tail ih =>
      obtain ⟨first, updated, rest⟩ := bind_ok applied
      obtain ⟨later, recursive, shape⟩ := bind_ok rest
      cases shape
      have advanced := updateCatalog_advances updated
      have onward := ih recursive
      refine List.pairwise_cons.mpr ⟨?_, onward⟩
      intro catalog member
      rcases List.mem_cons.mp member with same | included
      · exact same ▸ advanced
      · exact advanced.trans ((List.pairwise_cons.mp onward).1 catalog included)

end Serial

/-- What a call in some phase knows about the store and about its own catalog. -/
def PhaseInvariant (incoming : Catalog) (cell : Cell Blob ETag) : CommitPhase Blob → Prop
  | .reading => incoming.sessions = []
  | .loading _ => True
  | .merging _ base etag => ∃ seen,
      VersionedCell.Snapshot cell (commitPrecondition etag).guard seen ∧ Reads seen base
  | .pruning _ merged etag => ∃ seen base,
      VersionedCell.Snapshot cell (commitPrecondition etag).guard seen ∧ Reads seen base ∧
      mergeCatalogs base incoming = .ok merged
  | .putting _ pruned body etag => ∃ seen base,
      VersionedCell.Snapshot cell (commitPrecondition etag).guard seen ∧ Reads seen base ∧
      updateCatalog base incoming = .ok pruned ∧ CatalogCodec.decode body = .ok pruned
  | .returned _ => True

theorem PhaseInvariant.write {incoming : Catalog} {cell : Cell Blob ETag}
    {phase : CommitPhase Blob} (holds : PhaseInvariant incoming cell phase) (body : Blob)
    {etag : ETag} (fresh : etag ∉ cell.issued) :
    PhaseInvariant incoming (cell.write body etag) phase := by
  cases phase with
  | reading => exact holds
  | loading => trivial
  | merging =>
      obtain ⟨seen, snapshot, read⟩ := holds
      exact ⟨seen, snapshot.write body fresh, read⟩
  | pruning =>
      obtain ⟨seen, base, snapshot, rest⟩ := holds
      exact ⟨seen, base, snapshot.write body fresh, rest⟩
  | putting =>
      obtain ⟨seen, base, snapshot, rest⟩ := holds
      exact ⟨seen, base, snapshot.write body fresh, rest⟩
  | returned => trivial

def History (incoming : Call → Catalog) (initial : Option Blob) (world : CommitWorld Call Blob) :
    Prop :=
  (world.log = [] ∧ world.cell.value = initial) ∨
    ∃ base body, Reads initial base ∧
      serialCatalogs base (world.log.map fun write => incoming write.1) =
        .ok (world.log.map (·.2)) ∧
      world.log ≠ [] ∧ world.cell.value = some body ∧
      CatalogCodec.decode body = .ok ((world.log.map (·.2)).getLastD base)

structure CommitInvariant (incoming : Call → Catalog) (initial : Option Blob)
    (world : CommitWorld Call Blob) : Prop where
  phases : ∀ call, PhaseInvariant (incoming call) world.cell (world.calls call)
  history : History incoming initial world
  once : (world.log.map (·.1)).Nodup
  logged : ∀ call catalog, (call, catalog) ∈ world.log →
    world.calls call = .returned (.ok catalog)
  returned : ∀ call catalog, world.calls call = .returned (.ok catalog) →
    (incoming call).sessions ≠ [] → (call, catalog) ∈ world.log

omit [DecidableEq Call] in
theorem commitStart_invariant (incoming : Call → Catalog) (cell : Cell Blob ETag) :
    CommitInvariant incoming cell.value (CommitWorld.start incoming cell) where
  phases := by
    intro call
    simp only [CommitWorld.start, commitStart]
    split
    · rename_i empty
      exact List.isEmpty_iff.mp empty
    · trivial
  history := .inl ⟨rfl, rfl⟩
  once := List.nodup_nil
  logged := by simp [CommitWorld.start]
  returned := by
    intro call catalog finished
    simp only [CommitWorld.start, commitStart] at finished
    split at finished <;> cases finished

theorem CommitInvariant.move {incoming : Call → Catalog} {initial : Option Blob}
    {world : CommitWorld Call Blob} (invariant : CommitInvariant incoming initial world)
    {call : Call} {phase : CommitPhase Blob} (moved : CommitMove incoming world call phase) :
    CommitInvariant incoming initial (world.setPhase call phase) := by
  have running : ∀ result, world.calls call ≠ .returned result := by
    cases moved <;> simp_all
  refine ⟨?_, invariant.history, invariant.once, ?_, ?_⟩
  · intro other
    by_cases same : other = call
    · subst other
      have before := invariant.phases call
      have after : PhaseInvariant (incoming call) world.cell phase := by
        cases moved with
        | read => trivial
        | load _ loaded =>
            obtain ⟨read, guard⟩ := loadCatalog_ok loaded
            exact ⟨world.cell.value, guard ▸ VersionedCell.Snapshot.read world.cell, read⟩
        | merge at_ merge =>
            rw [at_] at before
            obtain ⟨seen, snapshot, read⟩ := before
            exact ⟨seen, _, snapshot, read, merge⟩
        | prune at_ encoded =>
            rw [at_] at before
            obtain ⟨seen, base, snapshot, read, merge⟩ := before
            exact ⟨seen, base, snapshot, read, updateCatalog_ok_iff.mpr ⟨_, merge, rfl⟩,
              CatalogCodec.decode_encode _ _ _ encoded⟩
        | retry => trivial
        | fail => trivial
      simpa [CommitWorld.setPhase] using after
    · simpa [CommitWorld.setPhase, same] using invariant.phases other
  · intro other catalog member
    by_cases same : other = call
    · subst other
      exact absurd (invariant.logged call catalog member) (running _)
    · simpa [CommitWorld.setPhase, same] using invariant.logged other catalog member
  · intro other catalog finished submits
    by_cases same : other = call
    · subst other
      have shape : phase = .returned (.ok catalog) := by
        simpa [CommitWorld.setPhase] using finished
      cases moved with
      | read at_ _ =>
          have before := invariant.phases call
          rw [at_] at before
          exact absurd before submits
      | load => cases shape
      | merge => cases shape
      | prune => cases shape
      | retry => cases shape
      | fail => cases shape
    · exact invariant.returned other catalog
        (by simpa [CommitWorld.setPhase, same] using finished) submits

/-- A write of what the incoming catalog makes of the stored one extends the history. -/
theorem History.put {incoming : Call → Catalog} {initial : Option Blob}
    {world : CommitWorld Call Blob} (history : History incoming initial world) {call : Call}
    {base pruned : Catalog} {body : Blob} {fresh : ETag} (read : Reads world.cell.value base)
    (updated : updateCatalog base (incoming call) = .ok pruned)
    (decoded : CatalogCodec.decode body = .ok pruned) :
    History incoming initial (world.write call pruned body fresh) := by
  have lastLog : ∀ first, ((world.log ++ [(call, pruned)]).map (·.2)).getLastD first = pruned := by
    simp
  rcases history with untouched | written
  · obtain ⟨empty, same⟩ := untouched
    refine .inr ⟨base, body, same ▸ read, ?_, by simp [CommitWorld.write], rfl, ?_⟩
    · simp [CommitWorld.write, empty, serialCatalogs, updated]
    · simp only [CommitWorld.write, lastLog]
      exact decoded
  · obtain ⟨first, old, start, applied, _, stored, oldDecoded⟩ := written
    have current : base = (world.log.map (·.2)).getLastD first := by
      rw [stored] at read
      exact Except.ok.inj (read.1.symm.trans oldDecoded)
    refine .inr ⟨first, body, start, ?_, by simp [CommitWorld.write], rfl, ?_⟩
    · simp only [CommitWorld.write, List.map_append, List.map_singleton]
      exact serialCatalogs_snoc applied (current ▸ updated)
    · simp only [CommitWorld.write, lastLog]
      exact decoded

/-- The PUT of a call whose precondition holds applies its incoming catalog to
exactly the catalog that is stored. -/
theorem CommitInvariant.put {incoming : Call → Catalog} {initial : Option Blob}
    {world : CommitWorld Call Blob} (invariant : CommitInvariant incoming initial world)
    {call : Call} {attempt : Nat} {pruned : Catalog} {body : Blob} {etag : Option ETag}
    {fresh : ETag} (phase : world.calls call = .putting attempt pruned body etag)
    (holds : (commitPrecondition etag).guard.holds world.cell.content = true)
    (unused : fresh ∉ world.cell.issued) :
    CommitInvariant incoming initial (world.write call pruned body fresh) := by
  have known := invariant.phases call
  rw [phase] at known
  obtain ⟨seen, base, snapshot, read, updated, decoded⟩ := known
  have present : world.cell.value = seen := snapshot.current holds
  have absent : ∀ catalog, (call, catalog) ∉ world.log := by
    intro catalog member
    rw [invariant.logged call catalog member] at phase
    cases phase
  refine ⟨?_, invariant.history.put (present.symm ▸ read) updated decoded, ?_, ?_, ?_⟩
  · intro other
    by_cases same : other = call
    · subst other
      simp [CommitWorld.write, PhaseInvariant]
    · simpa [CommitWorld.write, same] using (invariant.phases other).write body unused
  · simp only [CommitWorld.write, List.map_append, List.map_singleton, List.nodup_append]
    refine ⟨invariant.once, by simp, ?_⟩
    intro old included new single same
    obtain ⟨write, member, rfl⟩ := List.mem_map.mp included
    have ours : write.1 = call := same.trans (by simpa using single)
    exact absent write.2 (by rw [← ours]; exact member)
  · intro other catalog member
    rcases List.mem_append.mp member with earlier | single
    · have different : other ≠ call := fun same => absent catalog (same ▸ earlier)
      simpa [CommitWorld.write, different] using invariant.logged other catalog earlier
    · cases List.mem_singleton.mp single
      simp [CommitWorld.write]
  · intro other catalog finished submits
    by_cases same : other = call
    · subst other
      have shape : pruned = catalog := by simpa [CommitWorld.write] using finished
      simp [CommitWorld.write, shape]
    · have earlier := invariant.returned other catalog
        (by simpa [CommitWorld.write, same] using finished) submits
      exact List.mem_append_left _ earlier

theorem CommitInvariant.step {incoming : Call → Catalog} {initial : Option Blob}
    {world next : CommitWorld Call Blob} (invariant : CommitInvariant incoming initial world)
    {action : CommitAction Call} (taken : commitStep incoming world action = some next) :
    CommitInvariant incoming initial next := by
  rcases commitStep_cases taken with moved | put
  · obtain ⟨phase, move, rfl⟩ := moved
    exact invariant.move move
  · obtain ⟨attempt, pruned, body, etag, phase, holds, unused, rfl⟩ := put
    exact invariant.put phase holds unused

theorem CommitRun.invariant {incoming : Call → Catalog} {cell : Cell Blob ETag}
    {world : CommitWorld Call Blob} (run : CommitRun incoming cell world) :
    CommitInvariant incoming cell.value world :=
  Transition.Run.invariant run _ (commitStart_invariant incoming cell)
    fun _ _ _ holds _ taken => holds.step taken

end AgentTranscript
