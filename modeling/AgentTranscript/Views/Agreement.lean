import AgentTranscript.Catalog.Update
import AgentTranscript.Local.RecordProperties
import AgentTranscript.Views.SelectProperties
import AgentTranscript.Views.Sessions

/-! A listing decides between all copies and revisions of a session as one
`choose_current` over all of them would. -/

set_option autoImplicit false

namespace AgentTranscript

open Loop Ranking

/-- A side of a merge stands for its snapshots: it holds a top one, and its flag
says whether another body ties with it. -/
structure Side (items : List Freshness) (freshness : Freshness) (ambiguous : Bool) : Prop where
  top : IsTopOf Freshness.rankKey items freshness
  tied : ambiguous = true ↔ (topHashes items).Nontrivial

/-- `view` answers what one choice among `locals` and `remotes` answers. -/
structure Agrees (locals remotes : List Freshness) (view : MergedView) : Prop where
  ambiguous : view.pick = .ambiguous ↔ verdict (locals ++ remotes) = some .ambiguous
  hash : ∀ contentHash, verdict (locals ++ remotes) = some (.winner contentHash) →
    view.contentHash = contentHash
  pick : view.pick ≠ .ambiguous → (view.pick = .local ↔
    ∃ copy ∈ locals, IsTopOf Freshness.rankKey (locals ++ remotes) copy)

section Deciding

variable {locals remotes : List Freshness}

theorem Side.settled {items : List Freshness} {freshness : Freshness} {ambiguous : Bool}
    (side : Side items freshness ambiguous) (clear : ambiguous = false) :
    topHashes items = {freshness.contentHash} := by
  apply topBodies_eq_singleton side.top
  intro nontrivial
  exact absurd (side.tied.mpr nontrivial) (by simp [clear])

theorem Agrees.of_nontrivial {view : MergedView} (several : (topHashes (locals ++ remotes)).Nontrivial)
    (pick : view.pick = .ambiguous) : Agrees locals remotes view where
  ambiguous := by simp [pick, verdict_eq_ambiguous_iff, several]
  hash := by
    intro contentHash won
    exact absurd (verdict_eq_winner_iff.mp won ▸ several) Set.not_nontrivial_singleton
  pick := fun different => absurd pick different

theorem Agrees.of_singleton {view : MergedView} {contentHash : String}
    (only : topHashes (locals ++ remotes) = {contentHash}) (shown : view.contentHash = contentHash)
    (decided : view.pick ≠ .ambiguous)
    (pick : view.pick = .local ↔
      ∃ copy ∈ locals, IsTopOf Freshness.rankKey (locals ++ remotes) copy) :
    Agrees locals remotes view where
  ambiguous := by simp [decided, verdict_eq_ambiguous_iff, only]
  hash := by
    intro winner won
    rw [verdict_eq_winner_iff.mp won, Set.singleton_eq_singleton_iff] at only
    exact shown.trans only.symm
  pick := fun _ => pick

theorem fromLocal_agrees {view : LocalView} (side : Side locals view.freshness view.ambiguous) :
    Agrees locals [] (if view.ambiguous then ambiguousLocal view else fromLocal view) := by
  cases tied : view.ambiguous with
  | true =>
      apply Agrees.of_nontrivial
      · simpa using side.tied.mp tied
      · rfl
  | false =>
      apply Agrees.of_singleton
      · simpa using side.settled tied
      · rfl
      · simp [fromLocal]
      · simpa [fromLocal] using ⟨view.freshness, side.top.1, side.top⟩

theorem fromRemote_agrees {view : RemoteView}
    (side : Side remotes view.freshness view.ambiguous) : Agrees [] remotes (fromRemote view) := by
  cases tied : view.ambiguous with
  | true =>
      apply Agrees.of_nontrivial
      · exact side.tied.mp tied
      · simp [fromRemote, tied]
  | false =>
      apply Agrees.of_singleton
      · exact side.settled tied
      · simp [fromRemote, tied]
      · simp [fromRemote, tied]
      · simp [fromRemote, tied]

theorem mergePair_agrees_of_lt {view : LocalView} {remote : RemoteView}
    (left : Side locals view.freshness view.ambiguous)
    (right : Side remotes remote.freshness remote.ambiguous)
    (older : view.freshness.rankKey < remote.freshness.rankKey) :
    Agrees locals remotes (mergePair view remote) := by
  have bodies : topHashes (locals ++ remotes) = topHashes remotes :=
    topBodies_append_right left.top right.top older
  have ranked : rank view.freshness remote.freshness = .right := by
    rw [rank_eq, if_neg older.not_gt, if_pos older]
  have preferred : prefer view.freshness remote.freshness = .remote := by
    rw [prefer, ranked]
  cases tied : remote.ambiguous with
  | true =>
      apply Agrees.of_nontrivial
      · exact bodies ▸ right.tied.mp tied
      · simp [mergePair, ranked, tied, ambiguousLocal]
  | false =>
      apply Agrees.of_singleton (bodies.trans (right.settled tied))
      · simp [mergePair, ranked, preferred, tied, fromRemoteWithLocal, fromRemote]
      · simp [mergePair, ranked, preferred, tied, fromRemoteWithLocal, fromRemote]
      · have below : ∀ copy ∈ locals,
            ¬ IsTopOf Freshness.rankKey (locals ++ remotes) copy := by
          intro copy member top
          have above := top.2 remote.freshness (List.mem_append_right _ right.top.1)
          exact absurd ((left.top.2 copy member).trans_lt older) above.not_gt
        simpa [mergePair, ranked, preferred, tied, fromRemoteWithLocal, fromRemote] using below

theorem mergePair_agrees_of_eq {view : LocalView} {remote : RemoteView}
    (left : Side locals view.freshness view.ambiguous)
    (right : Side remotes remote.freshness remote.ambiguous)
    (level : view.freshness.rankKey = remote.freshness.rankKey) :
    Agrees locals remotes (mergePair view remote) := by
  have bodies : topHashes (locals ++ remotes) = topHashes locals ∪ topHashes remotes :=
    topBodies_append_both left.top right.top level
  have ranked : rank view.freshness remote.freshness =
      if view.freshness.contentHash = remote.freshness.contentHash then .same
      else .ambiguous := by
    rw [rank_eq, if_neg level.not_gt, if_neg level.not_lt]
  have top : IsTopOf Freshness.rankKey (locals ++ remotes) view.freshness :=
    (isTopOf_append_both left.top right.top level).mpr (.inl left.top)
  cases remoteTied : remote.ambiguous with
  | true =>
      apply Agrees.of_nontrivial
      · exact bodies ▸ (right.tied.mp remoteTied).mono Set.subset_union_right
      · rw [mergePair, ranked, remoteTied]
        split_ifs <;> simp_all [ambiguousLocal]
  | false =>
      cases localTied : view.ambiguous with
      | true =>
          apply Agrees.of_nontrivial
          · exact bodies ▸ (left.tied.mp localTied).mono Set.subset_union_left
          · rw [mergePair, ranked, remoteTied, localTied]
            split_ifs <;> simp_all [ambiguousLocal]
      | false =>
          rw [left.settled localTied, right.settled remoteTied, Set.singleton_union] at bodies
          by_cases same : view.freshness.contentHash = remote.freshness.contentHash
          · have preferred : prefer view.freshness remote.freshness = .local := by
              rw [prefer, ranked, if_pos same]
            have only : topHashes (locals ++ remotes) = {view.freshness.contentHash} := by
              rw [bodies, same, Set.pair_eq_singleton]
            apply Agrees.of_singleton only
            · simp [mergePair, remoteTied, localTied, preferred, fromLocal]
            · simp [mergePair, remoteTied, localTied, preferred, fromLocal]
            · simpa [mergePair, remoteTied, localTied, preferred, fromLocal] using
                ⟨view.freshness, left.top.1, top⟩
          · have preferred : prefer view.freshness remote.freshness = .ambiguous := by
              rw [prefer, ranked, if_neg same]
            apply Agrees.of_nontrivial
            · exact bodies ▸ Set.nontrivial_pair same
            · simp [mergePair, remoteTied, localTied, preferred, ambiguousLocal]

theorem mergePair_agrees_of_gt {view : LocalView} {remote : RemoteView}
    (left : Side locals view.freshness view.ambiguous)
    (right : Side remotes remote.freshness remote.ambiguous)
    (newer : remote.freshness.rankKey < view.freshness.rankKey) :
    Agrees locals remotes (mergePair view remote) := by
  have bodies : topHashes (locals ++ remotes) = topHashes locals :=
    topBodies_append_left left.top right.top newer
  have ranked : rank view.freshness remote.freshness = .left := by
    rw [rank_eq, if_pos newer]
  have preferred : prefer view.freshness remote.freshness = .local := by
    rw [prefer, ranked]
  have top : IsTopOf Freshness.rankKey (locals ++ remotes) view.freshness :=
    (isTopOf_append_left left.top right.top newer).mpr left.top
  cases tied : view.ambiguous with
  | true =>
      apply Agrees.of_nontrivial
      · exact bodies ▸ left.tied.mp tied
      · simp [mergePair, ranked, tied, ambiguousLocal]
  | false =>
      apply Agrees.of_singleton (bodies.trans (left.settled tied))
      · simp [mergePair, ranked, preferred, tied, fromLocal]
      · simp [mergePair, ranked, preferred, tied, fromLocal]
      · simpa [mergePair, ranked, preferred, tied, fromLocal] using
          ⟨view.freshness, left.top.1, top⟩

theorem mergePair_agrees {view : LocalView} {remote : RemoteView}
    (left : Side locals view.freshness view.ambiguous)
    (right : Side remotes remote.freshness remote.ambiguous) :
    Agrees locals remotes (mergePair view remote) := by
  by_cases older : view.freshness.rankKey < remote.freshness.rankKey
  · exact mergePair_agrees_of_lt left right older
  · by_cases newer : remote.freshness.rankKey < view.freshness.rankKey
    · exact mergePair_agrees_of_gt left right newer
    · exact mergePair_agrees_of_eq left right (le_antisymm (not_lt.mp newer) (not_lt.mp older))

end Deciding

section Sides

theorem topHashes_map_freshness {β : Type} (view : β → Freshness) (items : List β) :
    topHashes (items.map view) =
      topBodies (fun item => (view item).rankKey) (fun item => (view item).contentHash) items :=
  topBodies_map

def flagged (state : LocalView × Bool) : LocalView :=
  { state.1 with ambiguous := state.2 }

abbrev LocalView.rankKey (view : LocalView) : WithBot DateTime ×ₗ Nat :=
  view.freshness.rankKey

abbrev LocalView.contentHash (view : LocalView) : String :=
  view.freshness.contentHash

theorem chooseLocalStep_flagged (state : LocalView × Bool) {other : LocalView}
    (clean : other.ambiguous = false) :
    chooseLocalStep (flagged state) other =
      flagged (scanStep LocalView.rankKey LocalView.contentHash state other) := by
  unfold chooseLocalStep scanStep
  simp only [flagged, prefer_eq]
  split_ifs
  · rfl
  · simp [← clean]
  · rfl
  · rfl

theorem chooseLocal_fold (others : List LocalView) (state : LocalView × Bool)
    (clean : ∀ view ∈ others, view.ambiguous = false) :
    others.foldl chooseLocalStep (flagged state) =
      flagged (others.foldl (scanStep LocalView.rankKey LocalView.contentHash) state) := by
  induction others generalizing state with
  | nil => rfl
  | cons other rest ih =>
      rw [List.foldl_cons, List.foldl_cons, chooseLocalStep_flagged state (clean other (by simp))]
      exact ih _ fun view member => clean view (by simp [member])

theorem chooseLocal_standing {copies : List SourceRecord} {view : LocalView}
    (chosen : chooseLocal (copies.map viewOf) = some view) :
    ∃ state, Standing LocalView.rankKey LocalView.contentHash (copies.map viewOf) state ∧
      view = flagged state := by
  cases copies with
  | nil => cases chosen
  | cons head tail =>
      have clean : ∀ view ∈ tail.map viewOf, view.ambiguous = false := by
        intro view member
        obtain ⟨record, _, rfl⟩ := List.mem_map.mp member
        rfl
      have start : viewOf head = flagged (viewOf head, false) := rfl
      refine ⟨_, scan_standing LocalView.rankKey LocalView.contentHash (viewOf head)
        (tail.map viewOf), ?_⟩
      rw [List.map_cons, chooseLocal, start, chooseLocal_fold _ _ clean] at chosen
      exact (Option.some.inj chosen).symm

theorem chooseLocal_side {copies : List SourceRecord} {key : GroupKey} {view : LocalView}
    (keyed : ∀ record ∈ copies, record.groupKey = key)
    (chosen : chooseLocal (copies.map viewOf) = some view) :
    (view.harness, view.sessionId, view.repoKey) = key ∧
      Side (copies.map (·.freshness)) view.freshness view.ambiguous := by
  obtain ⟨state, standing, rfl⟩ := chooseLocal_standing chosen
  obtain ⟨origin, found, same⟩ := isTopOf_map.mp standing.best.isTopOf
  refine ⟨?_, ?_, ?_⟩
  · rw [← keyed origin found.1]
    simp [flagged, ← same, viewOf, SourceRecord.groupKey]
  · exact isTopOf_map.mpr ⟨origin, found, by simp [flagged, ← same, viewOf]⟩
  · rw [topHashes_map_freshness]
    have decided := standing.tied
    rw [Tied, topBodies_map] at decided
    exact decided

theorem remoteView_side [HarnessNames] {session : SessionRecord} {view : RemoteView}
    (made : remoteView session = .ok view) :
    (view.harness, view.sessionId) = session.key ∧ view.repoKey = session.repoKey ∧
      Side (session.revisions.map (·.freshness)) view.freshness view.ambiguous := by
  unfold remoteView at made
  split at made
  · cases made
  · rename_i occupied
    have nonempty : session.revisions.map (·.freshness) ≠ [] := by simpa using occupied
    obtain ⟨position, current, chosen, decided⟩ := chooseCurrent_spec nonempty
    obtain ⟨revision, first, same⟩ := isFirstTopAt_of_map chosen
    have top : IsTopOf Freshness.rankKey (session.revisions.map (·.freshness))
        revision.freshness := same ▸ chosen.isFirstTop.isTopOf
    rcases decided with only | several
    · simp only [only.1, ok_bind, Current.position, first.getElem?, Except.ok.injEq] at made
      subst made
      exact ⟨rfl, rfl, top, by simp [only.2]⟩
    · simp only [several.1, ok_bind, Current.position, first.getElem?, Except.ok.injEq] at made
      subst made
      exact ⟨rfl, rfl, top, by simp [several.2]⟩

theorem remoteView_total [HarnessNames] {session : SessionRecord}
    (nonempty : session.revisions ≠ []) : ∃ view, remoteView session = .ok view := by
  have ranked : session.revisions.map (·.freshness) ≠ [] := by simpa using nonempty
  obtain ⟨position, current, chosen, decided⟩ := chooseCurrent_spec ranked
  obtain ⟨revision, first, _⟩ := isFirstTopAt_of_map chosen
  unfold remoteView
  rw [if_neg (by simpa using nonempty)]
  rcases decided with only | several
  · simp [only.1, Current.position, first.getElem?]
  · simp [several.1, Current.position, first.getElem?]

end Sides

end AgentTranscript
