import AgentTranscript.Catalog.PruneProperties
import AgentTranscript.Views.Sessions

/-! Pruning a catalog leaves what its readers see as it was. -/

set_option autoImplicit false

namespace AgentTranscript

open Ranking

/-- The choice among revisions: the first of greatest rank, ambiguous when another
body has that rank. -/
theorem chooseCurrent_first {revisions : List Revision} {position : Nat} {best : Revision}
    (chosen : IsFirstTopAt Revision.rankKey revisions position best) :
    (chooseCurrent (revisions.map (·.freshness)) = .ok (.index position) ∧
        topBodies Revision.rankKey (·.contentHash) revisions = {best.contentHash}) ∨
      (chooseCurrent (revisions.map (·.freshness)) = .ok (.ambiguous position) ∧
        (topBodies Revision.rankKey (·.contentHash) revisions).Nontrivial) := by
  have bodies : topHashes (revisions.map (·.freshness)) =
      topBodies Revision.rankKey (·.contentHash) revisions := topBodies_map
  have nonempty : revisions.map (·.freshness) ≠ [] := by
    simpa using List.ne_nil_of_mem chosen.isFirstTop.isTopOf.1
  obtain ⟨place, current, first, answer⟩ := chooseCurrent_spec nonempty
  obtain ⟨origin, again, rfl⟩ := isFirstTopAt_of_map first
  obtain rfl : place = position := again.position_unique chosen
  obtain rfl : origin = best := Option.some.inj (again.getElem?.symm.trans chosen.getElem?)
  rwa [bodies] at answer

section Views

variable [HarnessNames] {session : SessionRecord}

/-- The view of a session: its first revision of greatest rank. -/
theorem remoteView_first {position : Nat} {best : Revision}
    (chosen : IsFirstTopAt Revision.rankKey session.revisions position best) :
    ∃ ambiguous, remoteView session = .ok {
        harness := session.harness
        sessionId := session.sessionId
        repoKey := session.repoKey
        freshness := best.freshness
        objectKey := best.objectKey
        info := best.info
        ambiguous := ambiguous } ∧
      (ambiguous = true ↔ (topBodies Revision.rankKey (·.contentHash) session.revisions).Nontrivial) := by
  have occupied : session.revisions.isEmpty = false := by
    simpa using List.ne_nil_of_mem chosen.isFirstTop.isTopOf.1
  unfold remoteView
  rw [if_neg (by simp [occupied])]
  rcases chooseCurrent_first chosen with ⟨answer, only⟩ | ⟨answer, several⟩
  · refine ⟨false, ?_, by simp [only]⟩
    simp only [answer, Loop.ok_bind, Current.position, chosen.getElem?]
  · refine ⟨true, ?_, by simp [several]⟩
    simp only [answer, Loop.ok_bind, Current.position, chosen.getElem?]

theorem remoteView_pruned (nonempty : session.revisions ≠ []) :
    ∃ view, remoteView session = .ok view ∧ remoteView session.pruned = .ok view := by
  obtain ⟨position, best, rest, chosen, kept⟩ := pruneRevisions_first nonempty
  have top : ∀ revision ∈ rest, revision.rankKey ≤ best.rankKey := by
    intro revision member
    have among : revision ∈ pruneRevisions session.revisions := by simp [kept, member]
    exact chosen.isFirstTop.isTopOf.2 revision ((pruneRevisions_spec _).sublist.subset among)
  have first : IsFirstTopAt Revision.rankKey session.pruned.revisions 0 best :=
    ⟨[], rest, kept, rfl, by simp, top⟩
  obtain ⟨ambiguous, view, tied⟩ := remoteView_first chosen
  obtain ⟨still, after, again⟩ := remoteView_first first
  have same : still = ambiguous := by
    rw [Bool.eq_iff_iff, again, tied]
    exact (congrArg Set.Nontrivial (pruneRevisions_topBodies session.revisions)).to_iff
  exact ⟨_, view, same ▸ after⟩

/-- Pruning changes no view, is idempotent, and keeps a subsequence of the revisions
of each session with one revision for each body. -/
theorem pruneToCurrent_views {catalog : Catalog}
    (nonempty : ∀ session ∈ catalog.sessions, session.revisions ≠ []) :
    (∃ views, remoteViews catalog = .ok views ∧ remoteViews (pruneToCurrent catalog) = .ok views) ∧
      pruneToCurrent (pruneToCurrent catalog) = pruneToCurrent catalog ∧
      List.Forall₂ (fun original pruned => pruned.revisions.Sublist original.revisions ∧
          (1 < original.revisions.length → (pruned.revisions.map (·.contentHash)).Nodup))
        catalog.sessions (pruneToCurrent catalog).sessions := by
  refine ⟨?_, ?_, ?_⟩
  · have total : ∀ session ∈ catalog.sessions, ∃ view, remoteView session = .ok view :=
      fun session member => (remoteView_pruned (nonempty session member)).imp fun _ given => given.1
    obtain ⟨views, before⟩ := Loop.mapM_total total
    have after : remoteViews (pruneToCurrent catalog) = catalog.sessions.mapM remoteView := by
      rw [remoteViews, pruneToCurrent_sessions, List.mapM_map]
      apply Loop.mapM_congr
      intro session member
      obtain ⟨view, one, other⟩ := remoteView_pruned (nonempty session member)
      exact other.trans one.symm
    exact ⟨views, before, after.trans before⟩
  · unfold pruneToCurrent
    simp only [List.map_map, Function.comp_def, pruneRevisions_idempotent]
  · rw [pruneToCurrent_sessions, List.forall₂_map_right_iff, List.forall₂_same]
    intro session _
    have kept := pruneRevisions_spec session.revisions
    exact ⟨kept.sublist, fun _ => kept.distinct⟩

end Views

section Tied

attribute [local instance] HarnessNames.snakeCase

/-- Two bodies share the greatest rank, one of them under two revisions. -/
def tiedRevisions : Catalog where
  schema := catalogSchema
  sessions := [⟨"https://github.com/org/repo", .codex, "session",
    [.bare "aaaa" 1, .bare "bbbb" 2, .bare "cccc" 2, .bare "bbbb" 2]⟩]

theorem tiedRevisions_views : ∃ views, remoteViews tiedRevisions = .ok views ∧
    remoteViews (pruneToCurrent tiedRevisions) = .ok views :=
  (pruneToCurrent_views (by decide)).1

end Tied

end AgentTranscript
