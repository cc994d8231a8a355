import AgentTranscript.Catalog.MergeProperties
import AgentTranscript.Catalog.PruneProperties

/-! One catalog update, as every commit computes it: merge, then prune. -/

set_option autoImplicit false

namespace AgentTranscript

open Loop Ranking

variable [HarnessNames]

def updateCatalog (base incoming : Catalog) : Except Error Catalog := do
  let merged ← mergeCatalogs base incoming
  .ok (pruneToCurrent merged)

variable {base incoming updated : Catalog}

theorem updateCatalog_ok_iff :
    updateCatalog base incoming = .ok updated ↔
      ∃ merged, mergeCatalogs base incoming = .ok merged ∧ updated = pruneToCurrent merged := by
  constructor
  · intro accepted
    obtain ⟨merged, succeeded, shape⟩ := bind_ok accepted
    cases shape
    exact ⟨merged, succeeded, rfl⟩
  · intro given
    obtain ⟨merged, succeeded, shape⟩ := given
    rw [updateCatalog, succeeded, ok_bind, shape]

theorem updateCatalog_schema (accepted : updateCatalog base incoming = .ok updated) :
    updated.schema = catalogSchema := by
  obtain ⟨merged, succeeded, rfl⟩ := updateCatalog_ok_iff.mp accepted
  obtain ⟨_, _, _, _, _, rfl⟩ := mergeCatalogs_ok_iff.mp succeeded
  rfl

/-- A session lives on in a later catalog: same key, same repository, and for
every revision one of at least its rank. -/
structure Survives (earlier later : SessionRecord) : Prop where
  key : later.key = earlier.key
  repoKey : later.repoKey = earlier.repoKey
  rank : ∀ revision ∈ earlier.revisions, ∃ other ∈ later.revisions,
    revision.rankKey ≤ other.rankKey

def Advances (earlier later : Catalog) : Prop :=
  ∀ session ∈ earlier.sessions, ∃ other ∈ later.sessions, Survives session other

omit [HarnessNames] in
theorem Advances.refl (catalog : Catalog) : Advances catalog catalog :=
  fun session member => ⟨session, member, rfl, rfl, fun revision found => ⟨revision, found, le_rfl⟩⟩

omit [HarnessNames] in
theorem Advances.trans {first second third : Catalog} (start : Advances first second)
    (next : Advances second third) : Advances first third := by
  intro session member
  obtain ⟨middle, present, survived⟩ := start session member
  obtain ⟨last, included, further⟩ := next middle present
  refine ⟨last, included, further.key.trans survived.key,
    further.repoKey.trans survived.repoKey, ?_⟩
  intro revision found
  obtain ⟨other, otherIn, above⟩ := survived.rank revision found
  obtain ⟨final, finalIn, higher⟩ := further.rank other otherIn
  exact ⟨final, finalIn, above.trans higher⟩

theorem updateCatalog_advances (accepted : updateCatalog base incoming = .ok updated) :
    Advances base updated := by
  obtain ⟨merged, succeeded, rfl⟩ := updateCatalog_ok_iff.mp accepted
  intro session member
  obtain ⟨later, present, continued⟩ := mergeCatalogs_continues succeeded member
  refine ⟨later.pruned, mem_pruneToCurrent.mpr ⟨later, present, rfl⟩,
    continued.key, continued.repoKey, ?_⟩
  exact fun revision found => pruneRevisions_dominates (continued.revisions found)

theorem updateCatalog_origin (accepted : updateCatalog base incoming = .ok updated)
    {session : SessionRecord} (member : session ∈ updated.sessions)
    {revision : Revision} (found : revision ∈ session.revisions) :
    ∃ source, (source ∈ base.sessions ∨ source ∈ incoming.sessions) ∧
      source.key = session.key ∧ source.repoKey = session.repoKey ∧
      revision ∈ source.revisions := by
  obtain ⟨merged, succeeded, rfl⟩ := updateCatalog_ok_iff.mp accepted
  obtain ⟨later, present, rfl⟩ := mem_pruneToCurrent.mp member
  exact (mergeCatalogs_origin succeeded present).2 revision
    ((pruneRevisions_spec later.revisions).sublist.subset found)

section Canonical

/-- Sessions are unique and every revision is non-conflicting and addressed by
its content hash. -/
structure WellFormed (catalog : Catalog) : Prop where
  schema : catalog.schema = catalogSchema
  sorted : catalog.sessions.Pairwise fun left right => left.sortKey < right.sortKey
  nonempty : ∀ session ∈ catalog.sessions, session.revisions ≠ []
  distinct : ∀ session ∈ catalog.sessions,
    (session.revisions.map (·.contentHash)).Nodup
  stored : ∀ session ∈ catalog.sessions, ∀ revision ∈ session.revisions,
    objectKey revision.contentHash = .ok revision.objectKey

theorem WellFormed.empty : WellFormed Catalog.empty where
  schema := rfl
  sorted := List.Pairwise.nil
  nonempty := by simp [Catalog.empty]
  distinct := by simp [Catalog.empty]
  stored := by simp [Catalog.empty]

/-- A catalog as commits leave it: strictly ordered throughout, each session
holding only revisions of one rank. -/
structure Canonical (catalog : Catalog) : Prop extends WellFormed catalog where
  ordered : ∀ session ∈ catalog.sessions,
    session.revisions.Pairwise fun left right => left.contentHash < right.contentHash
  level : ∀ session ∈ catalog.sessions, ∀ left ∈ session.revisions,
    ∀ right ∈ session.revisions, left.rankKey = right.rankKey

theorem WellFormed.merge {merged : Catalog} (stored : WellFormed base)
    (submitted : WellFormed incoming) (accepted : mergeCatalogs base incoming = .ok merged) :
    WellFormed merged where
  schema := by
    obtain ⟨_, _, _, _, _, rfl⟩ := mergeCatalogs_ok_iff.mp accepted
    rfl
  sorted := mergeCatalogs_sorted accepted (keys_nodup_of_sorted stored.sorted)
  nonempty := fun _ member => mergeCatalogs_nonempty accepted member
  distinct := by
    refine mergeCatalogs_forall accepted
      (fun session => (session.revisions.map (·.contentHash)).Nodup)
      stored.distinct submitted.distinct ?_ ?_
    · exact fun existing session unique _ _ _ => addRevisions_nodup session.revisions unique
    · exact fun session unique => (session.sorted_perm.map _).nodup_iff.mpr unique
  stored := by
    intro session member revision found
    obtain ⟨source, side, _, _, included⟩ := (mergeCatalogs_origin accepted member).2 revision found
    rcases side with present | present
    · exact stored.stored source present revision included
    · exact submitted.stored source present revision included

theorem mergeCatalogs_ordered {merged : Catalog} (stored : WellFormed base)
    (submitted : WellFormed incoming) (accepted : mergeCatalogs base incoming = .ok merged)
    {session : SessionRecord} (member : session ∈ merged.sessions) :
    session.revisions.Pairwise fun left right => left.contentHash < right.contentHash := by
  have unique := (stored.merge submitted accepted).distinct session member
  obtain ⟨_, _, sessions, _, _, rfl⟩ := mergeCatalogs_ok_iff.mp accepted
  obtain ⟨source, _, rfl⟩ := mem_merged_sessions.mp member
  exact source.sorted_strict ((source.sorted_perm.map _).nodup_iff.mp unique)

theorem WellFormed.update (stored : WellFormed base) (submitted : WellFormed incoming)
    (accepted : updateCatalog base incoming = .ok updated) : Canonical updated := by
  obtain ⟨merged, succeeded, rfl⟩ := updateCatalog_ok_iff.mp accepted
  have wellFormed := stored.merge submitted succeeded
  have every : ∀ session ∈ (pruneToCurrent merged).sessions, ∃ source ∈ merged.sessions,
      session.revisions = pruneRevisions source.revisions := by
    intro session member
    obtain ⟨source, present, rfl⟩ := mem_pruneToCurrent.mp member
    exact ⟨source, present, rfl⟩
  refine ⟨⟨wellFormed.schema, ?_, ?_, ?_, ?_⟩, ?_, ?_⟩
  · rw [pruneToCurrent_sessions, List.pairwise_map]
    exact wellFormed.sorted
  · intro session member
    obtain ⟨source, present, same⟩ := every session member
    exact same ▸ pruneRevisions_ne_nil (wellFormed.nonempty source present)
  · intro session member
    obtain ⟨source, _, same⟩ := every session member
    exact same ▸ (pruneRevisions_spec source.revisions).distinct
  · intro session member revision found
    obtain ⟨source, present, same⟩ := every session member
    rw [same] at found
    exact wellFormed.stored source present revision
      ((pruneRevisions_spec source.revisions).sublist.subset found)
  · intro session member
    obtain ⟨source, present, same⟩ := every session member
    rw [same]
    exact (mergeCatalogs_ordered stored submitted succeeded present).sublist
      (pruneRevisions_spec source.revisions).sublist
  · intro session member left leftIn right rightIn
    obtain ⟨source, _, same⟩ := every session member
    rw [same] at leftIn rightIn
    exact ((pruneRevisions_spec source.revisions).top left leftIn).key_eq
      ((pruneRevisions_spec source.revisions).top right rightIn)

omit [HarnessNames] in
theorem validateRevision_ok_iff {revision : Revision} :
    validateRevision revision = .ok () ↔
      objectKey revision.contentHash = .ok revision.objectKey := by
  unfold validateRevision
  cases expected : objectKey revision.contentHash with
  | error reason => simp
  | ok key =>
      by_cases same : revision.objectKey = key
      · simp [same, pure, Except.pure]
      · simp [same, Ne.symm same]

theorem validate_ok_iff {catalog : Catalog} :
    validate catalog = .ok () ↔ catalog.schema = catalogSchema ∧
      ∀ session ∈ catalog.sessions, session.revisions ≠ [] ∧
        ∀ revision ∈ session.revisions,
          objectKey revision.contentHash = .ok revision.objectKey := by
  unfold validate
  by_cases schema : catalog.schema = catalogSchema
  · simp only [schema, ne_eq, not_true_eq_false, if_false, true_and]
    rw [forM_ok_iff]
    refine forall₂_congr fun session _ => ?_
    by_cases empty : session.revisions = []
    · simp [empty]
    · simp only [List.isEmpty_iff, empty, if_false, not_false_eq_true, true_and]
      rw [forM_ok_iff]
      simp only [validateRevision_ok_iff]
  · simp [schema]

theorem WellFormed.validate {catalog : Catalog} (wellFormed : WellFormed catalog) :
    validate catalog = .ok () :=
  validate_ok_iff.mpr ⟨wellFormed.schema, fun session member =>
    ⟨wellFormed.nonempty session member, wellFormed.stored session member⟩⟩

end Canonical

end AgentTranscript
