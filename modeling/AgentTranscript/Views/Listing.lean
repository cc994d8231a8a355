import AgentTranscript.Views.Agreement

/-! The listing of one repository: one view for each session, deciding between
its local copies and its catalog revisions. -/

set_option autoImplicit false

namespace AgentTranscript

open Loop Ranking

/-- The local copies of a session in one repository. Pending records have no
repository, so these are its ready ones. -/
abbrev copiesIn (records : List SourceRecord) (repoKey : String) (key : SessionKey) :
    List SourceRecord :=
  copiesOf records (key.1, key.2, some repoKey)

def revisionsIn (catalog : Catalog) (repoKey : String) (key : SessionKey) : List Revision :=
  revisionsOf (catalog.sessions.filter fun session => session.repoKey = repoKey) key

theorem mem_revisionsIn {catalog : Catalog} {repoKey : String} {key : SessionKey}
    {revision : Revision} : revision ∈ revisionsIn catalog repoKey key ↔
      ∃ session ∈ catalog.sessions, session.repoKey = repoKey ∧ session.key = key ∧
        revision ∈ session.revisions := by
  simp [revisionsIn, and_assoc]

theorem revisionsOf_eq {sessions : List SessionRecord} (unique : (sessions.map (·.key)).Nodup)
    {session : SessionRecord} (member : session ∈ sessions) :
    revisionsOf sessions session.key = session.revisions := by
  induction sessions with
  | nil => cases member
  | cons head tail ih =>
      rw [List.map_cons, List.nodup_cons] at unique
      rcases List.mem_cons.mp member with same | later
      · subst same
        have others : tail.filter (fun other => other.key = session.key) = [] := by
          apply List.filter_eq_nil_iff.mpr
          intro other present matched
          have sameKey : other.key = session.key := by simpa using matched
          exact unique.1 (sameKey ▸ List.mem_map_of_mem present)
        simp [revisionsOf, others]
      · have different : head.key ≠ session.key := fun same =>
          unique.1 (same ▸ List.mem_map_of_mem later)
        rw [← ih unique.2 later]
        simp [revisionsOf, different]

theorem revisionsIn_eq {catalog : Catalog} (unique : (catalog.sessions.map (·.key)).Nodup)
    {session : SessionRecord} (member : session ∈ catalog.sessions) :
    revisionsIn catalog session.repoKey session.key = session.revisions := by
  apply revisionsOf_eq
  · exact (List.filter_sublist.map _).nodup unique
  · exact List.mem_filter.mpr ⟨member, by simp⟩

section Locals

variable {records : List SourceRecord}

theorem mem_localViews {view : LocalView} : view ∈ localViews records ↔
    ∃ key, chooseLocal ((copiesOf records key).map viewOf) = some view := by
  simp only [localViews, List.mem_filterMap, mem_grouped_iff]
  constructor
  · intro given
    obtain ⟨entry, ⟨shape, _⟩, chosen⟩ := given
    exact ⟨entry.1, shape ▸ chosen⟩
  · intro given
    obtain ⟨key, chosen⟩ := given
    refine ⟨(key, copiesOf records key), ⟨rfl, ?_⟩, chosen⟩
    intro empty
    simp only at empty
    rw [empty] at chosen
    cases chosen

theorem localViews_side {view : LocalView} (member : view ∈ localViews records) :
    chooseLocal ((copiesOf records (view.harness, view.sessionId, view.repoKey)).map viewOf) =
        some view ∧
      Side ((copiesOf records (view.harness, view.sessionId, view.repoKey)).map (·.freshness))
        view.freshness view.ambiguous := by
  obtain ⟨key, chosen⟩ := mem_localViews.mp member
  obtain ⟨same, side⟩ := chooseLocal_side (fun record present => (mem_copiesOf.mp present).2.2) chosen
  rw [same]
  exact ⟨chosen, side⟩

theorem exists_localView {key : GroupKey} (present : copiesOf records key ≠ []) :
    ∃ view ∈ localViews records, (view.harness, view.sessionId, view.repoKey) = key := by
  obtain ⟨head, tail, shape⟩ := List.exists_cons_of_ne_nil present
  have chosen : chooseLocal ((copiesOf records key).map viewOf) =
      some ((tail.map viewOf).foldl chooseLocalStep (viewOf head)) := by
    rw [shape]
    rfl
  exact ⟨_, mem_localViews.mpr ⟨key, chosen⟩,
    (chooseLocal_side (fun record member => (mem_copiesOf.mp member).2.2) chosen).1⟩

theorem localView_unique {left right : LocalView} (leftIn : left ∈ localViews records)
    (rightIn : right ∈ localViews records)
    (same : (left.harness, left.sessionId, left.repoKey) =
      (right.harness, right.sessionId, right.repoKey)) : left = right := by
  have chosen := (localViews_side leftIn).1
  rw [same, (localViews_side rightIn).1] at chosen
  exact (Option.some.inj chosen).symm

theorem localViews_nodup (records : List SourceRecord) :
    ((localViews records).map fun view => (view.harness, view.sessionId, view.repoKey)).Nodup := by
  rw [List.Nodup, List.pairwise_map, localViews, List.pairwise_filterMap]
  apply List.Pairwise.imp_of_mem _ (List.pairwise_map.mp (grouped_groups records).unique)
  intro left right leftIn rightIn apart view chosen other otherChosen same
  have keyOf : ∀ entry ∈ grouped records, ∀ view,
      chooseLocal (entry.2.map viewOf) = some view →
      (view.harness, view.sessionId, view.repoKey) = entry.1 := by
    intro entry member view chosen
    rw [(mem_grouped_iff.mp member).1] at chosen
    exact (chooseLocal_side (fun record present => (mem_copiesOf.mp present).2.2) chosen).1
  exact apart ((keyOf left leftIn view chosen).symm.trans
    (same.trans (keyOf right rightIn other otherChosen)))

end Locals

section Merged

variable [HarnessNames] {records : List SourceRecord} {catalog : Catalog} {repoKey : String}
  {selected : Option HarnessId} {key : SessionKey} {remotes : List RemoteView}

omit [HarnessNames] in
theorem matchesScope_iff {harness : HarnessId} {sessionRepo : Option String} :
    matchesScope harness sessionRepo repoKey selected = true ↔
      sessionRepo = some repoKey ∧ ∀ only, selected = some only → only = harness := by
  cases selected <;> simp [matchesScope]

omit [HarnessNames] in
@[simp] theorem pairUp_key (view : LocalView) :
    ((pairUp repoKey remotes view).harness, (pairUp repoKey remotes view).sessionId) =
      (view.harness, view.sessionId) := by
  unfold pairUp
  cases found : twinOf repoKey remotes view with
  | none => by_cases tied : view.ambiguous = true <;> simp [tied, ambiguousLocal, fromLocal]
  | some entry =>
      have twin := (twinOf_mem found).2
      simp only [isTwin, Bool.and_eq_true, decide_eq_true_eq] at twin
      simp only [mergePair]
      split_ifs
      · rfl
      · rfl
      · cases prefer view.freshness entry.1.freshness with
        | «local» => rfl
        | remote => simp [fromRemoteWithLocal, fromRemote, twin.1]
        | ambiguous => rfl

structure Reflects (catalog : Catalog) (remotes : List RemoteView) : Prop where
  unique : (remotes.map fun remote => (remote.harness, remote.sessionId)).Nodup
  side : ∀ remote ∈ remotes, Side ((revisionsIn catalog remote.repoKey
    (remote.harness, remote.sessionId)).map (·.freshness)) remote.freshness remote.ambiguous
  covers : ∀ repoKey key, revisionsIn catalog repoKey key ≠ [] →
    ∃ remote ∈ remotes, (remote.harness, remote.sessionId) = key ∧ remote.repoKey = repoKey

theorem remoteViews_reflects (unique : (catalog.sessions.map (·.key)).Nodup)
    (made : remoteViews catalog = .ok remotes) : Reflects catalog remotes where
  unique := by
    rw [map_of_mapM_ok made fun session remote ok => (remoteView_side ok).1]
    exact unique
  side := by
    intro remote member
    obtain ⟨session, present, ok⟩ := (mem_of_mapM_ok made).mp member
    obtain ⟨sameKey, sameRepo, side⟩ := remoteView_side ok
    rw [sameKey, sameRepo, revisionsIn_eq unique present]
    exact side
  covers := by
    intro repo key occupied
    obtain ⟨revision, found⟩ := List.exists_mem_of_ne_nil _ occupied
    obtain ⟨session, present, sameRepo, sameKey, included⟩ := mem_revisionsIn.mp found
    obtain ⟨remote, ok⟩ := remoteView_total (List.ne_nil_of_mem included)
    obtain ⟨ofKey, ofRepo, _⟩ := remoteView_side ok
    exact ⟨remote, (mem_of_mapM_ok made).mpr ⟨session, present, ok⟩,
      ofKey.trans sameKey, ofRepo.trans sameRepo⟩

omit [HarnessNames] in
theorem exists_position {remote : RemoteView} (member : remote ∈ remotes) :
    ∃ position, (remote, position) ∈ remotes.zipIdx := by
  rw [← List.zipIdx_map_fst 0 remotes] at member
  obtain ⟨entry, located, rfl⟩ := List.mem_map.mp member
  exact ⟨entry.2, located⟩

omit [HarnessNames] in
theorem Reflects.position {left right : RemoteView × Nat} (reflects : Reflects catalog remotes)
    (leftIn : left ∈ remotes.zipIdx) (rightIn : right ∈ remotes.zipIdx)
    (same : (left.1.harness, left.1.sessionId) = (right.1.harness, right.1.sessionId)) :
    left = right := by
  have unique : (remotes.zipIdx.map fun entry => (entry.1.harness, entry.1.sessionId)).Nodup := by
    have keys := reflects.unique
    rw [← List.zipIdx_map_fst 0 remotes, List.map_map] at keys
    exact keys
  exact List.inj_on_of_nodup_map unique leftIn rightIn same

omit [HarnessNames] in
theorem isTwin_iff {view : LocalView} {remote : RemoteView} :
    isTwin repoKey view remote = true ↔
      (remote.harness, remote.sessionId) = (view.harness, view.sessionId) ∧
        remote.repoKey = repoKey := by
  simp [isTwin]

omit [HarnessNames] in
theorem pairUp_agrees (reflects : Reflects catalog remotes) {view : LocalView}
    (member : view ∈ localViews records) (ours : view.repoKey = some repoKey) :
    Agrees ((copiesIn records repoKey (view.harness, view.sessionId)).map (·.freshness))
      ((revisionsIn catalog repoKey (view.harness, view.sessionId)).map (·.freshness))
      (pairUp repoKey remotes view) := by
  have side := (localViews_side member).2
  rw [ours] at side
  unfold pairUp
  cases found : twinOf repoKey remotes view with
  | none =>
      have absent : revisionsIn catalog repoKey (view.harness, view.sessionId) = [] := by
        by_contra occupied
        obtain ⟨remote, present, sameKey, sameRepo⟩ := reflects.covers _ _ occupied
        obtain ⟨position, located⟩ := exists_position present
        have none := List.find?_eq_none.mp found _ located
        exact none (isTwin_iff.mpr ⟨sameKey, sameRepo⟩)
      rw [absent]
      exact fromLocal_agrees side
  | some entry =>
      obtain ⟨located, twin⟩ := twinOf_mem found
      obtain ⟨sameKey, sameRepo⟩ := isTwin_iff.mp twin
      have remote := reflects.side entry.1 (List.fst_mem_of_mem_zipIdx located)
      rw [sameKey, sameRepo] at remote
      exact mergePair_agrees side remote

/-- `view` is the one view of a session, and answers what one choice among all
its copies and revisions answers. -/
structure Shown (records : List SourceRecord) (catalog : Catalog) (repoKey : String)
    (key : SessionKey) (views : List MergedView) (view : MergedView) : Prop where
  member : view ∈ views
  session : (view.harness, view.sessionId) = key
  agrees : Agrees ((copiesIn records repoKey key).map (·.freshness))
    ((revisionsIn catalog repoKey key).map (·.freshness)) view
  only : ∀ other ∈ views, (other.harness, other.sessionId) = key → other = view

theorem listed_of_remote (reflects : Reflects catalog remotes)
    (inScope : ∀ only, selected = some only → only = key.1)
    (copied : copiesIn records repoKey key = [])
    (archived : revisionsIn catalog repoKey key ≠ []) :
    ∃ view, Shown records catalog repoKey key
      (select repoKey selected (localViews records) remotes) view := by
  obtain ⟨remote, member, sameKey, sameRepo⟩ := reflects.covers repoKey key archived
  obtain ⟨position, located⟩ := exists_position member
  have alone : ∀ view ∈ localViews records,
      matchesScope view.harness view.repoKey repoKey selected = true →
      (view.harness, view.sessionId) ≠ key := by
    intro view viewIn matched sameView
    have chosen := (localViews_side viewIn).1
    have absent : copiesOf records (view.harness, view.sessionId, view.repoKey) = [] := by
      rw [(matchesScope_iff.mp matched).1, ← copied, ← sameView]
    rw [absent] at chosen
    cases chosen
  refine ⟨fromRemote remote, ?_, sameKey, ?_, ?_⟩
  · refine mem_select.mpr (.inr ⟨_, located, ?_, ?_, rfl⟩)
    · refine matchesScope_iff.mpr ⟨congrArg some sameRepo, ?_⟩
      exact fun only chosen => (inScope only chosen).trans (congrArg Prod.fst sameKey).symm
    · intro view viewIn matched twin
      exact alone view viewIn matched
        ((isTwin_iff.mp (twinOf_mem twin).2).1.symm.trans sameKey)
  · have side := reflects.side remote member
    rw [sameKey, sameRepo] at side
    rw [copied]
    exact fromRemote_agrees side
  · intro other otherIn otherKey
    rcases mem_select.mp otherIn with pushed | rest
    · obtain ⟨view, viewIn, matched, rfl⟩ := pushed
      exact absurd ((pairUp_key view).symm.trans otherKey) (alone view viewIn matched)
    · obtain ⟨entry, entryIn, _, _, rfl⟩ := rest
      rw [reflects.position entryIn located (otherKey.trans sameKey.symm)]

theorem listed_of_local (reflects : Reflects catalog remotes)
    (inScope : ∀ only, selected = some only → only = key.1)
    (copied : copiesIn records repoKey key ≠ []) :
    ∃ view, Shown records catalog repoKey key
      (select repoKey selected (localViews records) remotes) view := by
  obtain ⟨view, member, sameView⟩ := exists_localView copied
  obtain ⟨sameHarness, sameId, sameRepo⟩ : view.harness = key.1 ∧ view.sessionId = key.2 ∧
      view.repoKey = some repoKey := by simpa using sameView
  have ofKey : (view.harness, view.sessionId) = key := Prod.ext sameHarness sameId
  have matched : matchesScope view.harness view.repoKey repoKey selected = true :=
    matchesScope_iff.mpr ⟨sameRepo, fun only chosen =>
      (inScope only chosen).trans sameHarness.symm⟩
  refine ⟨pairUp repoKey remotes view, ?_, (pairUp_key view).trans ofKey, ?_, ?_⟩
  · exact mem_select.mpr (.inl ⟨view, member, matched, rfl⟩)
  · exact ofKey ▸ pairUp_agrees reflects member sameRepo
  · intro other otherIn otherKey
    rcases mem_select.mp otherIn with pushed | rest
    · obtain ⟨twin, twinIn, twinScope, rfl⟩ := pushed
      have same : twin = view := by
        apply localView_unique twinIn member
        have keys := Prod.mk.inj ((pairUp_key twin).symm.trans (otherKey.trans ofKey.symm))
        have repo := (matchesScope_iff.mp twinScope).1.trans sameRepo.symm
        rw [keys.1, keys.2, repo]
      rw [same]
    · obtain ⟨entry, entryIn, entryScope, unused, rfl⟩ := rest
      have entryKey : (entry.1.harness, entry.1.sessionId) = (view.harness, view.sessionId) :=
        otherKey.trans ofKey.symm
      have entryRepo : entry.1.repoKey = repoKey :=
        Option.some.inj (matchesScope_iff.mp entryScope).1
      cases found : twinOf repoKey remotes view with
      | none =>
          exact absurd (isTwin_iff.mpr ⟨entryKey, entryRepo⟩)
            (List.find?_eq_none.mp found _ entryIn)
      | some other =>
          obtain ⟨located, twin⟩ := twinOf_mem found
          have same := reflects.position located entryIn
            ((isTwin_iff.mp twin).1.trans entryKey.symm)
          exact absurd (same ▸ found) (unused view member matched)

/-- Every session with a copy or a revision in the repository is listed once,
and its view answers what one choice among all of them answers. -/
theorem merged_agrees (nonempty : ∀ session ∈ catalog.sessions, session.revisions ≠ [])
    (unique : (catalog.sessions.map (·.key)).Nodup)
    (inScope : ∀ only, selected = some only → only = key.1)
    (present : copiesIn records repoKey key ≠ [] ∨ revisionsIn catalog repoKey key ≠ []) :
    ∃ views, merged repoKey selected (localViews records) catalog = .ok views ∧
      ∃ view, Shown records catalog repoKey key views view := by
  obtain ⟨remotes, made⟩ : ∃ remotes, remoteViews catalog = .ok remotes :=
    mapM_total fun session member => remoteView_total (nonempty session member)
  have reflects := remoteViews_reflects unique made
  refine ⟨_, by rw [merged, made, ok_bind], ?_⟩
  by_cases copied : copiesIn records repoKey key = []
  · exact listed_of_remote reflects inScope copied (present.resolve_left (not_not.mpr copied))
  · exact listed_of_local reflects inScope copied

end Merged

section Example

attribute [local instance] HarnessNames.snakeCase

def readyRecord (source contentHash : String) (updatedAt : DateTime) : SourceRecord where
  harness := .codex
  source := source
  fingerprint := "0:0"
  sessionId := "session"
  repoKey := some "repo"
  state := .ready
  freshness := ⟨some updatedAt, none, 0, contentHash⟩
  info := ⟨0, none, none, none, none⟩

def tiedRecords : List SourceRecord :=
  [readyRecord "/a.jsonl" "aaa" 1, readyRecord "/b.jsonl" "bbb" 1]

/-- Two copies that tie lose to the newer archived revision. -/
theorem merged_agrees_remote : ∃ views, merged "repo" none (localViews tiedRecords)
      (Catalog.piece "repo" .codex "session" (.bare "ccc" 2)) = .ok views ∧
    ∃ view, Shown tiedRecords (Catalog.piece "repo" .codex "session" (.bare "ccc" 2)) "repo"
      (.codex, "session") views view :=
  merged_agrees (by decide) (by decide) (by decide) (by decide)

end Example

end AgentTranscript
