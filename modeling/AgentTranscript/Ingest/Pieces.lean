import AgentTranscript.Document
import AgentTranscript.Remote.Serializable

/-! Catalogs as scans submit them, and what the store holds when only such
catalogs are committed. -/

set_option autoImplicit false

namespace AgentTranscript

open Loop VersionedCell

/-- Merging the pieces of documents one after the other into the empty catalog. -/
inductive Scanned [HarnessNames] : Catalog → Prop where
  | empty : Scanned Catalog.empty
  | merge {incoming merged : Catalog} {document : ArchiveDocument} {hash : String}
      {updatedAt : Option DateTime} {size : Nat} {revision : Revision} :
      Scanned incoming → document.revision hash updatedAt size = .ok revision →
      mergeCatalogs incoming (document.piece revision) = .ok merged → Scanned merged

theorem ArchiveDocument.revision_ok_iff {document : ArchiveDocument} {hash : String}
    {updatedAt : Option DateTime} {size : Nat} {revision : Revision} :
    document.revision hash updatedAt size = .ok revision ↔
      objectKey hash = .ok revision.objectKey ∧
      revision.freshness = Freshness.ofBody document.messages updatedAt hash ∧
      revision.info = Info.of document.metadata ∧ revision.size = size := by
  constructor
  · intro made
    obtain ⟨key, named, shape⟩ := bind_ok made
    cases shape
    exact ⟨named, rfl, rfl, rfl⟩
  · intro given
    obtain ⟨named, freshness, info, length⟩ := given
    rw [ArchiveDocument.revision, named, ok_bind, ← freshness, ← info, ← length]

section WellFormed

variable [HarnessNames]

theorem WellFormed.piece {revision : Revision} (repoKey : String) (harness : HarnessId)
    (sessionId : String) (named : objectKey revision.contentHash = .ok revision.objectKey) :
    WellFormed (Catalog.piece repoKey harness sessionId revision) where
  schema := rfl
  sorted := List.pairwise_singleton _ _
  nonempty := by simp [Catalog.piece]
  distinct := by simp [Catalog.piece]
  stored := by simpa [Catalog.piece] using named

theorem Scanned.wellFormed {incoming : Catalog} (scanned : Scanned incoming) :
    WellFormed incoming := by
  induction scanned with
  | empty => exact .empty
  | merge _ made merged ih =>
      obtain ⟨named, freshness, _⟩ := ArchiveDocument.revision_ok_iff.mp made
      exact ih.merge (.piece _ _ _ (by rw [Revision.contentHash, freshness]; exact named)) merged

theorem serialCatalogs_canonical {base : Catalog} {incoming stored : List Catalog}
    (wellFormed : WellFormed base) (submitted : ∀ catalog ∈ incoming, WellFormed catalog)
    (applied : serialCatalogs base incoming = .ok stored) :
    ∀ catalog ∈ stored, Canonical catalog := by
  induction incoming generalizing base stored with
  | nil =>
      cases applied
      simp
  | cons head tail ih =>
      obtain ⟨first, updated, rest⟩ := bind_ok applied
      obtain ⟨later, recursive, shape⟩ := bind_ok rest
      cases shape
      have canonical := wellFormed.update (submitted head (by simp)) updated
      intro catalog member
      rcases List.mem_cons.mp member with same | onward
      · exact same ▸ canonical
      · exact ih canonical.toWellFormed (fun catalog later => submitted catalog (by simp [later]))
          recursive catalog onward

end WellFormed

section Runs

variable [HarnessNames] {Call Blob : Type} [DecidableEq Call] [CatalogCodec Blob]

/-- Every catalog stored since the bucket was empty is valid and canonical. -/
theorem commitRun_canonical {incoming : Call → Catalog} {cell : Cell Blob ETag}
    {world : CommitWorld Call Blob} (scanned : ∀ call, Scanned (incoming call))
    (absent : cell.content = none) (run : CommitRun incoming cell world) :
    ∀ write ∈ world.log, validate write.2 = .ok () ∧ Canonical write.2 := by
  intro write member
  have canonical : Canonical write.2 := by
    rcases run.invariant.history with untouched | written
    · simp [untouched.1] at member
    · obtain ⟨base, body, start, applied, _⟩ := written
      have empty : base = Catalog.empty := by simpa [Reads, Cell.value, absent] using start
      subst base
      refine serialCatalogs_canonical .empty ?_ applied write.2 (List.mem_map_of_mem member)
      intro catalog submitted
      obtain ⟨other, _, rfl⟩ := List.mem_map.mp submitted
      exact (scanned other.1).wellFormed
  exact ⟨canonical.toWellFormed.validate, canonical⟩

end Runs

section Example

attribute [local instance] HarnessNames.snakeCase CatalogCodec.plain

def raceDocument : ArchiveDocument :=
  .new .codex "repo" ⟨⟨"session", 0, none, none, none, none, ""⟩, []⟩

theorem raceIncoming_scanned (call : Bool) : Scanned (raceIncoming call) := by
  cases call with
  | false =>
      have made : raceDocument.revision "aaa" (some 1) 0 = .ok (.bare "aaa" 1) := by decide
      exact .merge .empty made (by decide)
  | true =>
      have made : raceDocument.revision "bbb" (some 2) 0 = .ok (.bare "bbb" 2) := by decide
      exact .merge .empty made (by decide)

theorem commitRun_canonical_race : ∃ world : CommitWorld Bool Catalog,
    world.log.map (·.1) = [false, true] ∧ (∀ call, Scanned (raceIncoming call)) ∧
    (Cell.empty : Cell Catalog ETag).content = none ∧ CommitRun raceIncoming Cell.empty world ∧
    ∀ write ∈ world.log, validate write.2 = .ok () ∧ Canonical write.2 := by
  obtain ⟨world, finished, order⟩ := race_finishes
  have run : CommitRun raceIncoming Cell.empty world := Transition.run_of_execute finished
  exact ⟨world, order, raceIncoming_scanned, rfl, run,
    commitRun_canonical raceIncoming_scanned rfl run⟩

end Example

end AgentTranscript
