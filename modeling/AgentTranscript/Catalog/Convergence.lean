import AgentTranscript.Catalog.Update

/-!
Commits in any order. A catalog keeps one revision of a content hash and forgets
superseded ones, so what is current in the end is what is current among
everything submitted as long as a hash at the top is not also known from further
down, where another hash could displace it first.
-/

set_option autoImplicit false

namespace AgentTranscript

open Loop Ranking

abbrev submittedSessions (catalogs : List Catalog) : List SessionRecord :=
  catalogs.flatMap (·.sessions)

/-- A content hash of the top rank that was also submitted at a lower rank ranks
above every other hash even there. -/
def TopUndisplaced (revisions : List Revision) : Prop :=
  ∀ top, IsTopOf Revision.rankKey revisions top →
    Undisplaced (revisions.map (·.freshness)) top.freshness

theorem TopUndisplaced.below {revisions : List Revision} (settled : TopUndisplaced revisions)
    {top stale other : Revision} (best : IsTopOf Revision.rankKey revisions top)
    (present : stale ∈ revisions) (same : stale.contentHash = top.contentHash)
    (lower : stale.rankKey < top.rankKey) (member : other ∈ revisions)
    (different : other.contentHash ≠ top.contentHash) : other.rankKey < stale.rankKey :=
  settled top best stale.freshness (List.mem_map_of_mem present) same lower other.freshness
    (List.mem_map_of_mem member) different

/-- What catalogs have to agree on to be merged in any order. -/
structure Compatible (catalogs : List Catalog) (repoOf : SessionKey → String) : Prop where
  schema : ∀ catalog ∈ catalogs, catalog.schema = catalogSchema
  nonempty : ∀ session ∈ submittedSessions catalogs, session.revisions ≠ []
  repoKey : ∀ session ∈ submittedSessions catalogs, session.repoKey = repoOf session.key

abbrev sessionVerdict (revisions : List Revision) : Option Verdict :=
  verdict (revisions.map (·.freshness))

theorem sessionVerdict_eq {left right : List Revision}
    (same : topBodies Revision.rankKey (·.contentHash) left =
      topBodies Revision.rankKey (·.contentHash) right) :
    sessionVerdict left = sessionVerdict right := by
  refine verdict_eq_of_topHashes ?_
  rw [topHashes, topHashes, topBodies_map, topBodies_map]
  exact same

section Merging

variable [HarnessNames] {repoOf : SessionKey → String}

theorem mergeSession_total {sessions : List SessionRecord} {incoming : SessionRecord}
    (stored : ∀ session ∈ sessions, session.repoKey = repoOf session.key)
    (submitted : incoming.repoKey = repoOf incoming.key) :
    ∃ merged, mergeSession sessions incoming = .ok merged := by
  rw [mergeSession_ok_iff]
  intro existing found
  have sameKey : existing.key = incoming.key := by simpa using List.find?_some found
  rw [stored existing (List.mem_of_find?_eq_some found), submitted, sameKey]

theorem mergeCatalogs_total {base incoming : Catalog} (baseSchema : base.schema = catalogSchema)
    (incomingSchema : incoming.schema = catalogSchema)
    (baseNonempty : ∀ session ∈ base.sessions, session.revisions ≠ [])
    (incomingNonempty : ∀ session ∈ incoming.sessions, session.revisions ≠ [])
    (baseRepo : ∀ session ∈ base.sessions, session.repoKey = repoOf session.key)
    (incomingRepo : ∀ session ∈ incoming.sessions, session.repoKey = repoOf session.key) :
    ∃ merged, mergeCatalogs base incoming = .ok merged := by
  have folds : ∃ sessions, incoming.sessions.foldlM mergeSession base.sessions = .ok sessions ∧
      ∀ session ∈ sessions, session.repoKey = repoOf session.key := by
    refine foldlM_total (fun current : List SessionRecord =>
      ∀ session ∈ current, session.repoKey = repoOf session.key) baseRepo ?_
    intro session member current agreed
    obtain ⟨merged, stepped⟩ := mergeSession_total agreed (incomingRepo session member)
    refine ⟨merged, stepped, ?_⟩
    intro later present
    rcases mergeSession_mem stepped present with old | rest
    · exact agreed later old
    · rcases rest with new | taken
      · exact new ▸ incomingRepo session member
      · obtain ⟨existing, old, _, _, rfl⟩ := taken
        exact agreed existing old
  obtain ⟨sessions, folded, _⟩ := folds
  refine ⟨_, mergeCatalogs_ok_iff.mpr ⟨baseSchema, incomingSchema, sessions, folded, ?_, rfl⟩⟩
  exact foldlM_mergeSession_nonempty folded baseNonempty incomingNonempty

end Merging

section Commits

variable {repoOf : SessionKey → String}

/-- What a catalog retains of the sessions `all` that will be submitted, of
which `done` have been. -/
structure Retains (repoOf : SessionKey → String) (all done : List SessionRecord)
    (catalog : Catalog) : Prop where
  schema : catalog.schema = catalogSchema
  unique : (catalog.sessions.map (·.key)).Nodup
  nonempty : ∀ session ∈ catalog.sessions, session.revisions ≠ []
  repoKey : ∀ session ∈ catalog.sessions, session.repoKey = repoOf session.key
  origin : ∀ session ∈ catalog.sessions, ∀ revision ∈ session.revisions,
    revision ∈ revisionsOf all session.key
  level : ∀ session ∈ catalog.sessions, ∀ left ∈ session.revisions,
    ∀ right ∈ session.revisions, left.rankKey = right.rankKey
  keys : ∀ key : SessionKey, key ∈ catalog.sessions.map (·.key) ↔ key ∈ done.map (·.key)
  tops : ∀ session ∈ catalog.sessions, ∀ top ∈ revisionsOf done session.key,
    IsTopOf Revision.rankKey (revisionsOf all session.key) top →
    ∃ kept ∈ session.revisions, kept.contentHash = top.contentHash

theorem Retains.empty (all : List SessionRecord) : Retains repoOf all [] Catalog.empty where
  schema := rfl
  unique := List.nodup_nil
  nonempty := by simp [Catalog.empty]
  repoKey := by simp [Catalog.empty]
  origin := by simp [Catalog.empty]
  level := by simp [Catalog.empty]
  keys := by simp [Catalog.empty]
  tops := by simp [Catalog.empty]

theorem pruneRevisions_keeps_top {all revisions : List Revision} (settled : TopUndisplaced all)
    (known : revisions ⊆ all) {top copy : Revision} (best : IsTopOf Revision.rankKey all top)
    (present : copy ∈ revisions) (same : copy.contentHash = top.contentHash) :
    ∃ kept ∈ pruneRevisions revisions, kept.contentHash = top.contentHash := by
  have pruned := pruneRevisions_spec revisions
  obtain ⟨highest, isHighest⟩ := exists_isTopOf Revision.rankKey (List.ne_nil_of_mem present)
  by_cases ours : highest.contentHash = top.contentHash
  · obtain ⟨kept, included, agrees⟩ := pruned.covers highest isHighest
    exact ⟨kept, included, agrees.trans ours⟩
  · -- Another hash is on top here, so the copy cannot be a stale one.
    have level : copy.rankKey = top.rankKey := by
      by_contra different
      have stale : copy.rankKey < top.rankKey :=
        lt_of_le_of_ne (best.2 copy (known present)) different
      have below := settled.below best (known present) same stale (known isHighest.1) ours
      exact absurd (isHighest.2 copy present) below.not_ge
    have copyTop : IsTopOf Revision.rankKey revisions copy :=
      ⟨present, fun other member => level ▸ best.2 other (known member)⟩
    obtain ⟨kept, included, agrees⟩ := pruned.covers copy copyTop
    exact ⟨kept, included, agrees.trans same⟩

theorem mem_revisionsOf_append {left right : List SessionRecord} {key : SessionKey}
    {revision : Revision} : revision ∈ revisionsOf (left ++ right) key ↔
      revision ∈ revisionsOf left key ∨ revision ∈ revisionsOf right key := by
  simp [revisionsOf]

theorem topBodies_eq_of_level {all kept : List Revision} (settled : TopUndisplaced all)
    (known : kept ⊆ all)
    (level : ∀ left ∈ kept, ∀ right ∈ kept, left.rankKey = right.rankKey)
    (tops : ∀ top, IsTopOf Revision.rankKey all top →
      ∃ copy ∈ kept, copy.contentHash = top.contentHash) :
    topBodies Revision.rankKey (·.contentHash) kept =
      topBodies Revision.rankKey (·.contentHash) all := by
  apply Set.Subset.antisymm
  · intro value given
    obtain ⟨current, found, same⟩ := given
    obtain ⟨top, best⟩ := exists_isTopOf Revision.rankKey (List.ne_nil_of_mem (known found.1))
    obtain ⟨copy, present, agrees⟩ := tops top best
    by_cases ours : current.contentHash = top.contentHash
    · exact ⟨top, best, ours.symm.trans same⟩
    · have equal : copy.rankKey = top.rankKey := by
        by_contra different
        have stale : copy.rankKey < top.rankKey :=
          lt_of_le_of_ne (best.2 copy (known present)) different
        have below := settled.below best (known present) agrees stale (known found.1) ours
        exact absurd (level current found.1 copy present) below.ne
      have high : top.rankKey ≤ current.rankKey :=
        (equal.symm.trans (level copy present current found.1)).le
      exact ⟨current, isTopOf_of_key_le best (known found.1) high, same⟩
  · intro value given
    obtain ⟨top, best, same⟩ := given
    obtain ⟨copy, present, agrees⟩ := tops top best
    exact ⟨copy, ⟨present, fun other member => (level other member copy present).le⟩,
      agrees.trans same⟩

variable [HarnessNames]

theorem Retains.copied {all done : List SessionRecord} {base incoming merged : Catalog}
    (retained : Retains repoOf all done base) (succeeded : mergeCatalogs base incoming = .ok merged)
    {source : SessionRecord} (present : source ∈ merged.sessions) {top : Revision}
    (submitted : top ∈ revisionsOf (done ++ incoming.sessions) source.key)
    (best : IsTopOf Revision.rankKey (revisionsOf all source.key) top) :
    ∃ copy ∈ source.revisions, copy.contentHash = top.contentHash := by
  have unique : (merged.sessions.map (·.key)).Nodup :=
    keys_nodup_of_sorted (mergeCatalogs_sorted succeeded retained.unique)
  have only : ∀ later ∈ merged.sessions, later.key = source.key → later = source :=
    fun later member same => List.inj_on_of_nodup_map unique member present same
  rcases mem_revisionsOf_append.mp submitted with earlier | now
  · obtain ⟨first, firstIn, sameKey, _⟩ := mem_revisionsOf.mp earlier
    have stored : source.key ∈ base.sessions.map (·.key) :=
      (retained.keys source.key).mpr (sameKey ▸ List.mem_map_of_mem firstIn)
    obtain ⟨old, oldIn, oldKey⟩ := List.mem_map.mp stored
    obtain ⟨later, laterIn, continued⟩ := mergeCatalogs_continues succeeded oldIn
    have same : later = source := only later laterIn (continued.key.trans oldKey)
    obtain ⟨copy, copyIn, agrees⟩ := retained.tops old oldIn top (oldKey ▸ earlier) (oldKey ▸ best)
    exact ⟨copy, same ▸ continued.revisions copyIn, agrees⟩
  · obtain ⟨first, firstIn, sameKey, topIn⟩ := mem_revisionsOf.mp now
    obtain ⟨later, laterIn, laterKey, _, covered⟩ := mergeCatalogs_represents succeeded firstIn
    have same : later = source := only later laterIn (laterKey.trans sameKey)
    exact same ▸ covered top topIn

theorem Retains.update {all done : List SessionRecord} {base incoming updated : Catalog}
    (settled : ∀ key, TopUndisplaced (revisionsOf all key)) (retained : Retains repoOf all done base)
    (repoKey : ∀ session ∈ incoming.sessions, session.repoKey = repoOf session.key)
    (included : incoming.sessions ⊆ all) (accepted : updateCatalog base incoming = .ok updated) :
    Retains repoOf all (done ++ incoming.sessions) updated := by
  obtain ⟨merged, succeeded, rfl⟩ := updateCatalog_ok_iff.mp accepted
  have unique : (merged.sessions.map (·.key)).Nodup :=
    keys_nodup_of_sorted (mergeCatalogs_sorted succeeded retained.unique)
  have origin : ∀ session ∈ merged.sessions, session.revisions ⊆ revisionsOf all session.key := by
    intro session member revision found
    obtain ⟨source, side, sameKey, _, present⟩ :=
      (mergeCatalogs_origin succeeded member).2 revision found
    rcases side with stored | submitted
    · exact sameKey ▸ retained.origin source stored revision present
    · exact mem_revisionsOf.mpr ⟨source, included submitted, sameKey, present⟩
  refine ⟨?_, ?_, ?_, ?_, ?_, ?_, ?_, ?_⟩
  · exact updateCatalog_schema accepted
  · simpa [pruneToCurrent_sessions, List.map_map, Function.comp_def] using unique
  · intro session member
    obtain ⟨source, present, rfl⟩ := mem_pruneToCurrent.mp member
    exact pruneRevisions_ne_nil (mergeCatalogs_nonempty succeeded present)
  · intro session member
    obtain ⟨source, present, rfl⟩ := mem_pruneToCurrent.mp member
    obtain ⟨first, side, sameKey, sameRepo⟩ := (mergeCatalogs_origin succeeded present).1
    have agreed : first.repoKey = repoOf first.key := by
      rcases side with stored | submitted
      · exact retained.repoKey first stored
      · exact repoKey first submitted
    rw [SessionRecord.pruned_repoKey, SessionRecord.pruned_key, ← sameRepo, ← sameKey, agreed]
  · intro session member revision found
    obtain ⟨source, present, rfl⟩ := mem_pruneToCurrent.mp member
    exact origin source present ((pruneRevisions_spec source.revisions).sublist.subset found)
  · intro session member left leftIn right rightIn
    obtain ⟨source, present, rfl⟩ := mem_pruneToCurrent.mp member
    exact ((pruneRevisions_spec source.revisions).top left leftIn).key_eq
      ((pruneRevisions_spec source.revisions).top right rightIn)
  · intro key
    have pruned : (pruneToCurrent merged).sessions.map (·.key) = merged.sessions.map (·.key) := by
      simp [pruneToCurrent_sessions, List.map_map, Function.comp_def]
    rw [pruned, mergeCatalogs_keys succeeded, retained.keys, List.map_append, List.mem_append]
  · intro session member top submitted best
    obtain ⟨source, present, rfl⟩ := mem_pruneToCurrent.mp member
    rw [SessionRecord.pruned_key] at submitted best
    obtain ⟨copy, copyIn, agrees⟩ := retained.copied succeeded present submitted best
    exact pruneRevisions_keeps_top (settled source.key) (origin source present) best copyIn agrees

/-- Commits of compatible catalogs, in any order, all succeed, and what is
current in each session is what is current among everything submitted for it. -/
theorem commits_converge {submissions order : List Catalog}
    (compatible : Compatible submissions repoOf)
    (settled : ∀ key, TopUndisplaced (revisionsOf (submittedSessions submissions) key))
    (reordered : order.Perm submissions) :
    ∃ final, order.foldlM updateCatalog Catalog.empty = .ok final ∧
      (final.sessions.map (·.key)).Nodup ∧
      (∀ key, key ∈ final.sessions.map (·.key) ↔
        key ∈ (submittedSessions submissions).map (·.key)) ∧
      ∀ session ∈ final.sessions, sessionVerdict session.revisions =
        sessionVerdict (revisionsOf (submittedSessions submissions) session.key) := by
  have sessions : (submittedSessions order).Perm (submittedSessions submissions) :=
    reordered.flatMap_right _
  have included : ∀ catalog ∈ order, catalog.sessions ⊆ submittedSessions submissions :=
    fun catalog member session present =>
      List.mem_flatMap.mpr ⟨catalog, reordered.mem_iff.mp member, present⟩
  have submitted : ∀ catalog ∈ order, ∀ session ∈ catalog.sessions,
      session.repoKey = repoOf session.key := fun catalog member session present =>
    compatible.repoKey session (included catalog member present)
  have finishes : ∃ final, order.foldlM updateCatalog Catalog.empty = .ok final ∧
      ∃ done, Retains repoOf (submittedSessions submissions) done final := by
    refine foldlM_total (fun base => ∃ done,
      Retains repoOf (submittedSessions submissions) done base) ⟨[], .empty _⟩ ?_
    intro incoming member base given
    obtain ⟨done, retained⟩ := given
    obtain ⟨merged, succeeded⟩ := mergeCatalogs_total retained.schema
      (compatible.schema incoming (reordered.mem_iff.mp member)) retained.nonempty
      (fun session present => compatible.nonempty session (included incoming member present))
      retained.repoKey (submitted incoming member)
    have accepted : updateCatalog base incoming = .ok (pruneToCurrent merged) :=
      updateCatalog_ok_iff.mpr ⟨merged, succeeded, rfl⟩
    exact ⟨_, accepted, _, retained.update settled (submitted incoming member)
      (included incoming member) accepted⟩
  obtain ⟨final, finished, _⟩ := finishes
  have retained : Retains repoOf (submittedSessions submissions) (submittedSessions order) final :=
    foldlM_ok_invariant finished
      (fun seen base => Retains repoOf (submittedSessions submissions) (submittedSessions seen) base)
      (.empty _) (by
        intro seen incoming base updated member holds accepted
        simpa [submittedSessions] using holds.update settled (submitted incoming member)
          (included incoming member) accepted)
  refine ⟨final, finished, retained.unique, ?_, ?_⟩
  · exact fun key => (retained.keys key).trans (sessions.map _).mem_iff
  · intro session member
    refine sessionVerdict_eq (topBodies_eq_of_level (settled session.key)
      (retained.origin session member) (retained.level session member) ?_)
    intro top best
    refine retained.tops session member top ?_ best
    obtain ⟨source, present, rest⟩ := mem_revisionsOf.mp best.1
    exact mem_revisionsOf.mpr ⟨source, sessions.mem_iff.mpr present, rest⟩

end Commits

section Example

attribute [local instance] HarnessNames.snakeCase

def submission (contentHash : String) (updatedAt : DateTime) : Catalog :=
  Catalog.piece "repo" .codex "session" (.bare contentHash updatedAt)

def tiedSubmissions : List Catalog :=
  [submission "aaa" 1, submission "bbb" 2, submission "ccc" 2]

theorem tiedSubmissions_undisplaced (key : SessionKey) :
    TopUndisplaced (revisionsOf (submittedSessions tiedSubmissions) key) := by
  have distinct : ∀ left ∈ submittedSessions tiedSubmissions,
      ∀ right ∈ submittedSessions tiedSubmissions, ∀ one ∈ left.revisions,
      ∀ other ∈ right.revisions, one.contentHash = other.contentHash →
        one.freshness = other.freshness := by decide
  intro top best stale member same lower
  obtain ⟨copy, copyIn, rfl⟩ := List.mem_map.mp member
  obtain ⟨first, firstIn, _, topIn⟩ := mem_revisionsOf.mp best.1
  obtain ⟨second, secondIn, _, staleIn⟩ := mem_revisionsOf.mp copyIn
  have equal := distinct second secondIn first firstIn copy staleIn top topIn same
  exact absurd (equal ▸ lower) (lt_irrefl _)

theorem commits_converge_tie :
    ∃ final, tiedSubmissions.reverse.foldlM updateCatalog Catalog.empty = .ok final ∧
      (final.sessions.map (·.key)).Nodup ∧
      (∀ key, key ∈ final.sessions.map (·.key) ↔
        key ∈ (submittedSessions tiedSubmissions).map (·.key)) ∧
      ∀ session ∈ final.sessions, sessionVerdict session.revisions =
        sessionVerdict (revisionsOf (submittedSessions tiedSubmissions) session.key) := by
  have compatible : Compatible tiedSubmissions fun _ => "repo" :=
    ⟨by decide, by decide, by decide⟩
  exact commits_converge compatible tiedSubmissions_undisplaced (List.reverse_perm _)

def staleSubmissions : List Catalog :=
  [submission "aaa" 1, submission "aaa" 5, submission "bbb" 3]

/-- The body `aaa` of time 5 is dropped in favour of its copy of time 1, which
the body `bbb` of time 3 then supersedes. -/
theorem commits_diverge :
    Compatible staleSubmissions (fun _ => "repo") ∧
    ∃ final, staleSubmissions.foldlM updateCatalog Catalog.empty = .ok final ∧
      final.sessions.map (fun session => sessionVerdict session.revisions) =
        [some (.winner "bbb")] ∧
      sessionVerdict (revisionsOf (submittedSessions staleSubmissions) (.codex, "session")) =
        some (.winner "aaa") :=
  ⟨⟨by decide, by decide, by decide⟩, submission "bbb" 3, by decide, by decide, by decide⟩

end Example

end AgentTranscript
