import AgentTranscript.Library.OuterJoin
import AgentTranscript.Views.Listing

/-!
`select` as an outer join: the views in scope on either side, joined by
session and put in order.
-/

set_option autoImplicit false

namespace AgentTranscript

def LocalView.key (view : LocalView) : SessionKey :=
  (view.harness, view.sessionId)

def RemoteView.key (view : RemoteView) : SessionKey :=
  (view.harness, view.sessionId)

def MergedView.key (view : MergedView) : SessionKey :=
  (view.harness, view.sessionId)

def loneLocal (view : LocalView) : MergedView :=
  if view.ambiguous then ambiguousLocal view else fromLocal view

def localsInScope (repoKey : String) (selected : Option HarnessId) (locals : List LocalView) :
    List LocalView :=
  locals.filter fun view => matchesScope view.harness view.repoKey repoKey selected

def remotesInScope (repoKey : String) (selected : Option HarnessId) (remotes : List RemoteView) :
    List RemoteView :=
  remotes.filter fun view => matchesScope view.harness (some view.repoKey) repoKey selected

section Join

theorem mergePair_cases (view : LocalView) (remote : RemoteView) :
    mergePair view remote = ambiguousLocal view ∨ mergePair view remote = fromLocal view ∨
      remote.ambiguous = false ∧ mergePair view remote = fromRemoteWithLocal remote view := by
  unfold mergePair
  split_ifs with tied _
  · exact .inl rfl
  · exact .inl rfl
  · cases preferred : prefer view.freshness remote.freshness with
    | «local» => exact .inr (.inl rfl)
    | remote =>
        refine .inr (.inr ⟨?_, rfl⟩)
        by_contra ambiguous
        have newer : rank view.freshness remote.freshness ≠ .left := by
          intro left
          rw [prefer, left] at preferred
          cases preferred
        exact tied (by simp [ambiguous, newer])
    | ambiguous => exact .inl rfl

theorem mergePair_key (view : LocalView) (remote : RemoteView) (same : remote.key = view.key) :
    (mergePair view remote).key = view.key := by
  rcases mergePair_cases view remote with shape | shape | shape
  · rw [shape]; rfl
  · rw [shape]; rfl
  · rw [shape.2]; exact same

theorem loneLocal_key (view : LocalView) : (loneLocal view).key = view.key := by
  unfold loneLocal
  split_ifs <;> rfl

def sessionJoin : OuterJoin LocalView RemoteView SessionKey MergedView where
  leftKey := LocalView.key
  rightKey := RemoteView.key
  rowKey := MergedView.key
  both := mergePair
  onlyLeft := loneLocal
  onlyRight := fromRemote
  both_key := mergePair_key
  onlyLeft_key := loneLocal_key
  onlyRight_key := fun _ => rfl

end Join

section Scope

variable {repoKey : String} {selected : Option HarnessId} {locals : List LocalView}
  {remotes : List RemoteView}

theorem mem_localsInScope {view : LocalView} : view ∈ localsInScope repoKey selected locals ↔
    view ∈ locals ∧ view.repoKey = some repoKey ∧ ∀ only, selected = some only →
      only = view.harness := by
  rw [localsInScope, List.mem_filter, matchesScope_iff]

theorem mem_remotesInScope {view : RemoteView} : view ∈ remotesInScope repoKey selected remotes ↔
    view ∈ remotes ∧ view.repoKey = repoKey ∧ ∀ only, selected = some only →
      only = view.harness := by
  rw [remotesInScope, List.mem_filter, matchesScope_iff, Option.some_inj]

theorem localsInScope_nodup
    (unique : (locals.map fun view => (view.harness, view.sessionId, view.repoKey)).Nodup) :
    ((localsInScope repoKey selected locals).map LocalView.key).Nodup := by
  have narrowed := unique.sublist
    ((List.filter_sublist (p := fun view : LocalView =>
      matchesScope view.harness view.repoKey repoKey selected)).map
        fun view => (view.harness, view.sessionId, view.repoKey))
  apply List.Nodup.map_on _ narrowed.of_map
  intro left leftIn right rightIn same
  apply List.inj_on_of_nodup_map narrowed leftIn rightIn
  have sameRepo := (mem_localsInScope.mp leftIn).2.1.trans (mem_localsInScope.mp rightIn).2.1.symm
  have sameSession := Prod.mk.inj same
  exact Prod.ext sameSession.1 (Prod.ext sameSession.2 sameRepo)

theorem remotesInScope_nodup (unique : (remotes.map RemoteView.key).Nodup) :
    ((remotesInScope repoKey selected remotes).map RemoteView.key).Nodup :=
  unique.sublist (List.filter_sublist.map RemoteView.key)

/-- A view in scope finds its twin among all remote views where the join finds
its partner among those in scope. -/
theorem twinOf_partner {view : LocalView} (member : view ∈ localsInScope repoKey selected locals) :
    (twinOf repoKey remotes view).map (·.1) =
      sessionJoin.partner (remotesInScope repoKey selected remotes) view := by
  have passes := (mem_localsInScope.mp member).2.2
  have searched : (twinOf repoKey remotes view).map (·.1) =
      remotes.find? (isTwin repoKey view) := by
    conv_rhs => rw [← List.zipIdx_map_fst 0 remotes, List.find?_map]
    rfl
  rw [searched, OuterJoin.partner, remotesInScope, List.find?_filter]
  congr 1
  funext remote
  rw [Bool.eq_iff_iff, isTwin_iff, decide_eq_true_iff, matchesScope_iff, decide_eq_true_iff]
  constructor
  · intro given
    obtain ⟨sameKey, sameRepo⟩ := given
    exact ⟨⟨congrArg some sameRepo, fun only chosen =>
      (passes only chosen).trans (congrArg Prod.fst sameKey).symm⟩, sameKey⟩
  · intro given
    exact ⟨given.2, Option.some.inj given.1.1⟩

theorem pairUp_row {view : LocalView} (member : view ∈ localsInScope repoKey selected locals) :
    pairUp repoKey remotes view =
      sessionJoin.row (remotesInScope repoKey selected remotes) view := by
  rw [OuterJoin.row, ← twinOf_partner member, pairUp]
  cases twinOf repoKey remotes view with
  | none => rfl
  | some entry => rfl

theorem zipIdx_inScope : ((remotes.zipIdx.filter fun entry =>
    matchesScope entry.1.harness (some entry.1.repoKey) repoKey selected).map (·.1)) =
      remotesInScope repoKey selected remotes := by
  conv_rhs => rw [← List.zipIdx_map_fst 0 remotes, remotesInScope, List.filter_map]
  rfl

theorem entry_unique (unique : ((remotesInScope repoKey selected remotes).map RemoteView.key).Nodup)
    {left right : RemoteView × Nat} (leftIn : left ∈ remotes.zipIdx)
    (rightIn : right ∈ remotes.zipIdx)
    (leftScope : matchesScope left.1.harness (some left.1.repoKey) repoKey selected = true)
    (same : left.1 = right.1) : left = right := by
  rw [← zipIdx_inScope, List.map_map] at unique
  exact List.inj_on_of_nodup_map unique (List.mem_filter.mpr ⟨leftIn, leftScope⟩)
    (List.mem_filter.mpr ⟨rightIn, same ▸ leftScope⟩) (congrArg RemoteView.key same)

/-- The loop marks a remote view in scope as used exactly when some local view
in scope is of the same session. -/
theorem marked_iff (unique : ((remotesInScope repoKey selected remotes).map RemoteView.key).Nodup)
    {entry : RemoteView × Nat} (located : entry ∈ remotes.zipIdx)
    (inScope : matchesScope entry.1.harness (some entry.1.repoKey) repoKey selected = true) :
    (∃ view ∈ localsInScope repoKey selected locals, twinOf repoKey remotes view = some entry) ↔
      ∃ view ∈ localsInScope repoKey selected locals, view.key = entry.1.key := by
  constructor
  · intro given
    obtain ⟨view, member, found⟩ := given
    exact ⟨view, member, (isTwin_iff.mp (twinOf_mem found).2).1.symm⟩
  · intro given
    obtain ⟨view, member, same⟩ := given
    have present : entry.1 ∈ remotesInScope repoKey selected remotes :=
      List.mem_filter.mpr ⟨List.fst_mem_of_mem_zipIdx located, inScope⟩
    have partnered := (sessionJoin.partner_eq_some_iff unique).mpr ⟨present, same.symm⟩
    rw [← twinOf_partner member, Option.map_eq_some_iff] at partnered
    obtain ⟨other, found, sameView⟩ := partnered
    have sameEntry := entry_unique unique located (twinOf_mem found).1 inScope sameView.symm
    exact ⟨view, member, sameEntry ▸ found⟩

theorem unpaired_eq
    (unique : ((remotesInScope repoKey selected remotes).map RemoteView.key).Nodup) :
    ((remotes.zip (remotes.zipIdx.map fun entry =>
        (localsInScope repoKey selected locals).any fun view =>
          twinOf repoKey remotes view = some entry)).filter fun entry =>
        !entry.2 && matchesScope entry.1.harness (some entry.1.repoKey) repoKey selected).map
      (fun entry => fromRemote entry.1) =
    (sessionJoin.unmatched (localsInScope repoKey selected locals)
      (remotesInScope repoKey selected remotes)).map fromRemote := by
  rw [zip_marks, List.filter_map, List.map_map, OuterJoin.unmatched, ← zipIdx_inScope,
    List.filter_map, List.map_map, List.filter_filter]
  congr 1
  apply List.filter_congr
  intro entry located
  rw [Bool.eq_iff_iff]
  simp only [Function.comp_apply, Bool.and_eq_true, Bool.not_eq_true', List.all_eq_true,
    decide_eq_true_iff]
  by_cases inScope : matchesScope entry.1.harness (some entry.1.repoKey) repoKey selected = true
  · have marked : (∃ view ∈ localsInScope repoKey selected locals,
          twinOf repoKey remotes view = some entry) ↔
        ∃ view ∈ localsInScope repoKey selected locals, view.key = entry.1.key :=
      marked_iff unique located inScope
    simp only [inScope, and_true]
    rw [List.any_eq_false]
    constructor
    · intro unused view member same
      obtain ⟨other, otherIn, found⟩ := marked.mpr ⟨view, member, same⟩
      exact unused other otherIn (decide_eq_true found)
    · intro apart view member found
      obtain ⟨other, otherIn, same⟩ := marked.mp ⟨view, member, of_decide_eq_true found⟩
      exact apart other otherIn same
  · simp [inScope]

end Scope

section Select

variable [HarnessNames] {repoKey : String} {selected : Option HarnessId}
  {locals otherLocals : List LocalView} {remotes otherRemotes : List RemoteView}

/-- The double loop with its used flags is the outer join of what is in scope. -/
theorem select_eq_rows
    (unique : ((remotesInScope repoKey selected remotes).map RemoteView.key).Nodup) :
    select repoKey selected locals remotes =
      (sessionJoin.rows (localsInScope repoKey selected locals)
        (remotesInScope repoKey selected remotes)).insertionSort
          fun left right => left.sortKey ≤ right.sortKey := by
  have paired : (localsInScope repoKey selected locals).map (pairUp repoKey remotes) =
      (localsInScope repoKey selected locals).map
        (sessionJoin.row (remotesInScope repoKey selected remotes)) :=
    List.map_congr_left fun view member => pairUp_row member
  rw [select, OuterJoin.rows, ← paired]
  simp only [selectStep_fold]
  rw [← localsInScope, unpaired_eq unique]
  rfl

/-- A session has a local or a remote copy under the repository. -/
def Copied (repoKey : String) (locals : List LocalView) (remotes : List RemoteView)
    (key : SessionKey) : Prop :=
  (∃ view ∈ locals, view.key = key ∧ view.repoKey = some repoKey) ∨
    (∃ view ∈ remotes, view.key = key ∧ view.repoKey = repoKey)

/-- A view is listed by the last update of the copy it shows, else by its last message, else by
its start. -/
def MergedView.Dated (view : MergedView) (freshness : Freshness) (info : Info) : Prop :=
  view.sortAt = (freshness.updatedAt.or freshness.lastMessageAt).getD info.startedAt

/-- What a pick promises to the code that reads its body, and where it is listed. -/
def MergedView.WellFormed (repoKey : String) (locals : List LocalView) (remotes : List RemoteView)
    (view : MergedView) : Prop :=
  match view.pick with
  | .local => ∃ copy ∈ locals, copy.key = view.key ∧ copy.repoKey = some repoKey ∧
      view.localSource = some copy.source ∧ view.Dated copy.freshness copy.info
  | .remote => ∃ revision ∈ remotes, revision.key = view.key ∧ revision.repoKey = repoKey ∧
      view.objectKey = some revision.objectKey ∧
      view.contentHash = revision.freshness.contentHash ∧
      view.Dated revision.freshness revision.info
  | .ambiguous => view.objectKey = none ∧ view.contentHash = "" ∧
      ((∃ copy ∈ locals, copy.key = view.key ∧ copy.repoKey = some repoKey ∧
          view.localSource = some copy.source ∧ view.Dated copy.freshness copy.info) ∨
        ∃ revision ∈ remotes, revision.key = view.key ∧ revision.repoKey = repoKey ∧
          view.localSource = none ∧ view.Dated revision.freshness revision.info)

structure Selection (repoKey : String) (selected : Option HarnessId) (locals : List LocalView)
    (remotes : List RemoteView) (views : List MergedView) : Prop where
  listed : ∀ key : SessionKey, key ∈ views.map MergedView.key ↔
    Copied repoKey locals remotes key ∧ ∀ only, selected = some only → only = key.1
  once : (views.map MergedView.key).Nodup
  sorted : views.Pairwise fun left right => left.sortKey < right.sortKey
  wellFormed : ∀ view ∈ views, view.WellFormed repoKey locals remotes

omit [HarnessNames] in
theorem copied_iff {key : SessionKey} :
    (key ∈ (localsInScope repoKey selected locals).map LocalView.key ∨
        key ∈ (remotesInScope repoKey selected remotes).map RemoteView.key) ↔
      Copied repoKey locals remotes key ∧ ∀ only, selected = some only → only = key.1 := by
  simp only [List.mem_map, mem_localsInScope, mem_remotesInScope]
  constructor
  · intro either
    rcases either with given | given
    · obtain ⟨view, ⟨member, sameRepo, passes⟩, rfl⟩ := given
      exact ⟨.inl ⟨view, member, rfl, sameRepo⟩, passes⟩
    · obtain ⟨view, ⟨member, sameRepo, passes⟩, rfl⟩ := given
      exact ⟨.inr ⟨view, member, rfl, sameRepo⟩, passes⟩
  · intro given
    obtain ⟨copied, passes⟩ := given
    rcases copied with copy | copy
    · obtain ⟨view, member, rfl, sameRepo⟩ := copy
      exact .inl ⟨view, ⟨member, sameRepo, passes⟩, rfl⟩
    · obtain ⟨view, member, rfl, sameRepo⟩ := copy
      exact .inr ⟨view, ⟨member, sameRepo, passes⟩, rfl⟩

theorem sortKey_injective {left right : MergedView} (same : left.sortKey = right.sortKey) :
    left.key = right.key := by
  have parts := (Prod.mk.inj (toLex_inj.mp same)).2
  obtain ⟨sameName, sameId⟩ := Prod.mk.inj (toLex_inj.mp parts)
  exact Prod.ext (HarnessNames.asStr_injective sameName) sameId

theorem sorted_of_nodup {views : List MergedView} (unique : (views.map MergedView.key).Nodup)
    (ordered : views.Pairwise fun left right => left.sortKey ≤ right.sortKey) :
    views.Pairwise fun left right => left.sortKey < right.sortKey := by
  have apart : views.Pairwise fun left right => left.key ≠ right.key :=
    List.pairwise_map.mp unique
  refine (ordered.and apart).imp ?_
  intro left right both
  exact lt_of_le_of_ne both.1 fun same => both.2 (sortKey_injective same)

omit [HarnessNames] in
theorem ambiguousLocal_wellFormed {view : LocalView} (member : view ∈ locals)
    (sameRepo : view.repoKey = some repoKey) :
    (ambiguousLocal view).WellFormed repoKey locals remotes :=
  ⟨rfl, rfl, .inl ⟨view, member, rfl, sameRepo, rfl, rfl⟩⟩

omit [HarnessNames] in
theorem fromLocal_wellFormed {view : LocalView} (member : view ∈ locals)
    (sameRepo : view.repoKey = some repoKey) :
    (fromLocal view).WellFormed repoKey locals remotes :=
  ⟨view, member, rfl, sameRepo, rfl, rfl⟩

omit [HarnessNames] in
theorem fromRemote_wellFormed {remote : RemoteView} (member : remote ∈ remotes)
    (sameRepo : remote.repoKey = repoKey) :
    (fromRemote remote).WellFormed repoKey locals remotes := by
  unfold MergedView.WellFormed
  cases tied : remote.ambiguous with
  | true =>
      simp only [fromRemote, tied, if_true]
      exact ⟨trivial, trivial, .inr ⟨remote, member, rfl, sameRepo, trivial, rfl⟩⟩
  | false =>
      simp only [fromRemote, tied, Bool.false_eq_true, if_false]
      exact ⟨remote, member, rfl, sameRepo, rfl, rfl, rfl⟩

omit [HarnessNames] in
theorem fromRemoteWithLocal_wellFormed {view : LocalView} {remote : RemoteView}
    (untied : remote.ambiguous = false) (member : remote ∈ remotes)
    (sameRepo : remote.repoKey = repoKey) :
    (fromRemoteWithLocal remote view).WellFormed repoKey locals remotes := by
  unfold MergedView.WellFormed
  simp only [fromRemoteWithLocal, fromRemote, untied, Bool.false_eq_true, if_false]
  exact ⟨remote, member, rfl, sameRepo, rfl, rfl, rfl⟩

omit [HarnessNames] in
theorem rows_wellFormed
    (unique : ((remotesInScope repoKey selected remotes).map RemoteView.key).Nodup)
    {merged : MergedView} (member : merged ∈ sessionJoin.rows (localsInScope repoKey selected locals)
      (remotesInScope repoKey selected remotes)) :
    merged.WellFormed repoKey locals remotes := by
  rcases (sessionJoin.mem_rows unique).mp member with paired | lone | lone
  · obtain ⟨view, viewIn, remote, remoteIn, same, rfl⟩ := paired
    obtain ⟨viewMember, viewRepo, _⟩ := mem_localsInScope.mp viewIn
    obtain ⟨remoteMember, remoteRepo, _⟩ := mem_remotesInScope.mp remoteIn
    have shapes : sessionJoin.both view remote = mergePair view remote := rfl
    rw [shapes]
    rcases mergePair_cases view remote with shape | shape | shape
    · rw [shape]
      exact ambiguousLocal_wellFormed viewMember viewRepo
    · rw [shape]
      exact fromLocal_wellFormed viewMember viewRepo
    · rw [shape.2]
      exact fromRemoteWithLocal_wellFormed shape.1 remoteMember remoteRepo
  · obtain ⟨view, viewIn, _, rfl⟩ := lone
    obtain ⟨viewMember, viewRepo, _⟩ := mem_localsInScope.mp viewIn
    change (loneLocal view).WellFormed repoKey locals remotes
    unfold loneLocal
    split_ifs
    · exact ambiguousLocal_wellFormed viewMember viewRepo
    · exact fromLocal_wellFormed viewMember viewRepo
  · obtain ⟨remote, remoteIn, _, rfl⟩ := lone
    obtain ⟨remoteMember, remoteRepo, _⟩ := mem_remotesInScope.mp remoteIn
    exact fromRemote_wellFormed remoteMember remoteRepo

theorem select_perm_rows
    (unique : ((remotesInScope repoKey selected remotes).map RemoteView.key).Nodup) :
    (select repoKey selected locals remotes).Perm
      (sessionJoin.rows (localsInScope repoKey selected locals)
        (remotesInScope repoKey selected remotes)) := by
  rw [select_eq_rows unique]
  exact List.perm_insertionSort _ _

theorem selection_of_scope
    (localsUnique : ((localsInScope repoKey selected locals).map LocalView.key).Nodup)
    (remotesUnique : ((remotesInScope repoKey selected remotes).map RemoteView.key).Nodup) :
    Selection repoKey selected locals remotes (select repoKey selected locals remotes) := by
  have rows : (select repoKey selected locals remotes).Perm _ := select_perm_rows remotesUnique
  have once := (rows.map MergedView.key).nodup_iff.mpr
    (sessionJoin.rows_keys_nodup localsUnique remotesUnique)
  have ordered : (select repoKey selected locals remotes).Pairwise
      fun left right => left.sortKey ≤ right.sortKey := by
    rw [select_eq_rows remotesUnique]
    exact List.pairwise_insertionSort _ _
  refine ⟨?_, once, sorted_of_nodup once ordered, ?_⟩
  · intro key
    rw [← copied_iff, (rows.map MergedView.key).mem_iff]
    exact sessionJoin.mem_rows_keys
  · intro view member
    exact rows_wellFormed remotesUnique (rows.mem_iff.mp member)

theorem selection_unique {left right : List MergedView}
    (leftSorted : left.Pairwise fun first second => first.sortKey < second.sortKey)
    (rightSorted : right.Pairwise fun first second => first.sortKey < second.sortKey)
    (reordered : left.Perm right) : left = right :=
  reordered.eq_of_pairwise (fun _ _ _ _ below above => absurd above below.not_gt)
    leftSorted rightSorted

/-- One well-formed view for each session in scope, in order. Of either input
only the views in scope count, in any order. -/
theorem select_selection
    (localsUnique : (locals.map fun view => (view.harness, view.sessionId, view.repoKey)).Nodup)
    (remotesUnique : (remotes.map fun view => (view.harness, view.sessionId)).Nodup) :
    Selection repoKey selected locals remotes (select repoKey selected locals remotes) ∧
      ∀ otherLocals otherRemotes,
        (localsInScope repoKey selected otherLocals).Perm (localsInScope repoKey selected locals) →
        (remotesInScope repoKey selected otherRemotes).Perm
          (remotesInScope repoKey selected remotes) →
        select repoKey selected otherLocals otherRemotes =
          select repoKey selected locals remotes := by
  have localKeys : ((localsInScope repoKey selected locals).map LocalView.key).Nodup :=
    localsInScope_nodup localsUnique
  have remoteKeys : ((remotesInScope repoKey selected remotes).map RemoteView.key).Nodup :=
    remotesInScope_nodup remotesUnique
  have chosen := selection_of_scope localKeys remoteKeys
  refine ⟨chosen, ?_⟩
  intro otherLocals otherRemotes sameLocals sameRemotes
  have otherLocalKeys := (sameLocals.map LocalView.key).nodup_iff.mpr localKeys
  have otherRemoteKeys := (sameRemotes.map RemoteView.key).nodup_iff.mpr remoteKeys
  have other := selection_of_scope otherLocalKeys otherRemoteKeys
  have sameRows := sessionJoin.rows_perm otherRemoteKeys sameLocals sameRemotes
  exact selection_unique other.sorted chosen.sorted
    ((select_perm_rows otherRemoteKeys).trans (sameRows.trans (select_perm_rows remoteKeys).symm))

end Select

section Example

attribute [local instance] HarnessNames.snakeCase

def localCopy (sessionId contentHash : String) (updatedAt : DateTime) : LocalView where
  harness := .codex
  sessionId := sessionId
  repoKey := some "repo"
  source := "/a.jsonl"
  fingerprint := "1:2"
  freshness := ⟨some updatedAt, none, 0, contentHash⟩
  info := ⟨0, none, none, none, none⟩
  ambiguous := false

def remoteCopy (sessionId contentHash : String) (updatedAt : DateTime) : RemoteView where
  harness := .codex
  sessionId := sessionId
  repoKey := "repo"
  freshness := ⟨some updatedAt, none, 0, contentHash⟩
  objectKey := contentHash
  info := ⟨0, none, none, none, none⟩
  ambiguous := false

/-- A session on both sides, one only local and one only archived. -/
theorem select_selection_mixed :
    Selection "repo" none [localCopy "both" "aaa" 1, localCopy "left" "bbb" 3]
        [remoteCopy "both" "ccc" 2, remoteCopy "right" "ddd" 1]
        (select "repo" none [localCopy "both" "aaa" 1, localCopy "left" "bbb" 3]
          [remoteCopy "both" "ccc" 2, remoteCopy "right" "ddd" 1]) ∧
      ∀ otherLocals otherRemotes,
        (localsInScope "repo" none otherLocals).Perm
          (localsInScope "repo" none [localCopy "both" "aaa" 1, localCopy "left" "bbb" 3]) →
        (remotesInScope "repo" none otherRemotes).Perm
          (remotesInScope "repo" none [remoteCopy "both" "ccc" 2, remoteCopy "right" "ddd" 1]) →
        select "repo" none otherLocals otherRemotes =
          select "repo" none [localCopy "both" "aaa" 1, localCopy "left" "bbb" 3]
            [remoteCopy "both" "ccc" 2, remoteCopy "right" "ddd" 1] :=
  select_selection (by decide) (by decide)

end Example

end AgentTranscript
