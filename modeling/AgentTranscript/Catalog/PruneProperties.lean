import AgentTranscript.Library.Loop
import AgentTranscript.Merge.RankProperties
import AgentTranscript.Catalog.Basic

/-! Pruning keeps one revision for each content hash at the greatest rank. -/

set_option autoImplicit false

namespace AgentTranscript

open Loop Ranking

abbrev Revision.rankKey (revision : Revision) : WithBot DateTime ×ₗ Nat :=
  revision.freshness.rankKey

/-- What pruning keeps: some of the revisions in their order, all of the
greatest rank, one for each content hash found there. -/
structure Pruned (revisions kept : List Revision) : Prop where
  sublist : kept.Sublist revisions
  top : ∀ revision ∈ kept, IsTopOf Revision.rankKey revisions revision
  covers : ∀ revision, IsTopOf Revision.rankKey revisions revision →
    ∃ member ∈ kept, member.contentHash = revision.contentHash
  distinct : (kept.map (·.contentHash)).Nodup

section Loop

/-- The entries of `by_hash` after the revisions `seen`: the positions of `kept`,
newest first. -/
structure Collected (best : Revision) (seen kept : List (Revision × Nat))
    (byHash : List (String × Nat)) : Prop where
  sublist : kept.Sublist seen
  entries : byHash = (kept.map fun entry => (entry.1.contentHash, entry.2)).reverse
  top : ∀ entry ∈ kept, ¬ entry.1.rankKey < best.rankKey
  covers : ∀ entry ∈ seen, ¬ entry.1.rankKey < best.rankKey →
    ∃ member ∈ kept, member.1.contentHash = entry.1.contentHash
  distinct : (kept.map fun entry => entry.1.contentHash).Nodup

variable {best : Revision} {seen kept : List (Revision × Nat)} {byHash : List (String × Nat)}

theorem prefer_eq_remote_iff {left right : Freshness} :
    prefer left right = .remote ↔ left.rankKey < right.rankKey := by
  rw [prefer_eq]
  split_ifs with above below same
  · simp [above.not_gt]
  · simp [below]
  · simp [below]
  · simp [below]

theorem Collected.lookup_eq_none (collected : Collected best seen kept byHash)
    {contentHash : String} (absent : byHash.lookup contentHash = none) :
    ∀ entry ∈ kept, entry.1.contentHash ≠ contentHash := by
  intro entry member same
  have missing := List.lookup_eq_none_iff.mp absent (entry.1.contentHash, entry.2) (by
    rw [collected.entries, List.mem_reverse]
    exact List.mem_map.mpr ⟨entry, member, rfl⟩)
  simp [same] at missing

theorem Collected.skip (collected : Collected best seen kept byHash) {entry : Revision × Nat}
    (older : entry.1.rankKey < best.rankKey) :
    Collected best (seen ++ [entry]) kept byHash where
  sublist := collected.sublist.trans (List.sublist_append_left _ _)
  entries := collected.entries
  top := collected.top
  covers := by
    intro other included above
    rcases List.mem_append.mp included with earlier | single
    · exact collected.covers other earlier above
    · exact absurd (List.mem_singleton.mp single ▸ older) above
  distinct := collected.distinct

theorem Collected.insert (collected : Collected best seen kept byHash) {entry : Revision × Nat}
    (above : ¬ entry.1.rankKey < best.rankKey)
    (absent : byHash.lookup entry.1.contentHash = none) :
    Collected best (seen ++ [entry]) (kept ++ [entry])
      (hashInsert byHash entry.1.contentHash entry.2) where
  sublist := collected.sublist.append (List.Sublist.refl _)
  entries := by
    have others : byHash.filter (fun pair => pair.1 ≠ entry.1.contentHash) = byHash := by
      rw [List.filter_eq_self]
      intro pair member
      rw [collected.entries, List.mem_reverse] at member
      obtain ⟨origin, included, rfl⟩ := List.mem_map.mp member
      simpa using collected.lookup_eq_none absent origin included
    rw [hashInsert, others, collected.entries]
    simp
  top := by
    intro other included
    rcases List.mem_append.mp included with earlier | single
    · exact collected.top other earlier
    · exact List.mem_singleton.mp single ▸ above
  covers := by
    intro other included otherAbove
    rcases List.mem_append.mp included with earlier | single
    · obtain ⟨member, present, same⟩ := collected.covers other earlier otherAbove
      exact ⟨member, by simp [present], same⟩
    · exact ⟨entry, by simp, by rw [List.mem_singleton.mp single]⟩
  distinct := by
    rw [List.map_append, List.map_singleton, List.nodup_append]
    refine ⟨collected.distinct, by simp, ?_⟩
    intro old included new single same
    obtain ⟨origin, member, rfl⟩ := List.mem_map.mp included
    exact collected.lookup_eq_none absent origin member (same.trans (List.mem_singleton.mp single))

theorem Collected.repeat (collected : Collected best seen kept byHash) {entry : Revision × Nat}
    {index : Nat} (present : byHash.lookup entry.1.contentHash = some index) :
    Collected best (seen ++ [entry]) kept byHash where
  sublist := collected.sublist.trans (List.sublist_append_left _ _)
  entries := collected.entries
  top := collected.top
  covers := by
    intro other included above
    rcases List.mem_append.mp included with earlier | single
    · exact collected.covers other earlier above
    · have found : ∃ member ∈ kept, member.1.contentHash = entry.1.contentHash := by
        by_contra none
        have absent : byHash.lookup entry.1.contentHash = Option.none := by
          rw [List.lookup_eq_none_iff, collected.entries]
          intro pair member
          rw [List.mem_reverse] at member
          obtain ⟨origin, originIn, rfl⟩ := List.mem_map.mp member
          simpa using fun same => none ⟨origin, originIn, Eq.symm same⟩
        simp [absent] at present
      rw [List.mem_singleton.mp single]
      exact found
  distinct := collected.distinct

/-- One turn of the loop. At the best position itself nothing is collected yet,
so the branch that replaces an entry there is never taken. -/
theorem Collected.step {before after : List Revision}
    (collected : Collected best seen kept byHash) {entry : Revision × Nat}
    {rest : List (Revision × Nat)}
    (split : (before ++ best :: after).zipIdx = seen ++ entry :: rest)
    (below : ∀ revision ∈ before, revision.rankKey < best.rankKey) :
    ∃ more, Collected best (seen ++ [entry]) (kept ++ more)
      (pruneStep before.length best.freshness byHash entry) := by
  unfold pruneStep
  by_cases older : entry.1.rankKey < best.rankKey
  · rw [if_pos (prefer_eq_remote_iff.mpr older)]
    exact ⟨[], by simpa using collected.skip older⟩
  · rw [if_neg (fun remote => older (prefer_eq_remote_iff.mp remote))]
    cases found : byHash.lookup entry.1.contentHash with
    | none => exact ⟨[entry], collected.insert older found⟩
    | some index =>
        have elsewhere : entry.2 ≠ before.length := by
          intro here
          have atEntry : (before ++ best :: after).zipIdx[seen.length]? = some entry := by
            simp [split]
          have position : seen.length = before.length := by
            simp only [List.getElem?_zipIdx, Option.map_eq_some_iff] at atEntry
            obtain ⟨_, _, same⟩ := atEntry
            simpa using (congrArg Prod.snd same).trans here
          have firstPart : seen.map Prod.fst = before := by
            have projected := congrArg (List.map Prod.fst) split
            simp only [List.zipIdx_map_fst, List.map_append, List.map_cons] at projected
            exact (List.append_inj_left projected (by simpa using position.symm)).symm
          have nothing : kept = [] := by
            rw [List.eq_nil_iff_forall_not_mem]
            intro member included
            exact collected.top member included (below member.1
              (firstPart ▸ List.mem_map_of_mem (collected.sublist.subset included)))
          rw [collected.entries, nothing] at found
          simp at found
        simp only [if_neg elsewhere]
        exact ⟨[], by simpa using collected.repeat found⟩

/-- Of the entries with one content hash that are not superseded, none comes
before the collected one. -/
def Earliest (best : Revision) (seen kept : List (Revision × Nat)) : Prop :=
  ∀ entry ∈ seen, ¬ entry.1.rankKey < best.rankKey →
    ∃ member ∈ kept, member.1.contentHash = entry.1.contentHash ∧ member.2 ≤ entry.2

theorem zipIdx_increasing (revisions : List Revision) :
    revisions.zipIdx.Pairwise fun left right => left.2 ≤ right.2 := by
  have positions : (revisions.zipIdx.map (·.2)).Pairwise (· ≤ ·) := by
    rw [List.zipIdx_map_snd]
    exact List.pairwise_le_range'
  exact List.pairwise_map.mp positions

theorem Earliest.step {revisions : List Revision} {entry : Revision × Nat}
    {more rest : List (Revision × Nat)} (earliest : Earliest best seen kept)
    (split : revisions.zipIdx = seen ++ entry :: rest)
    (collected : Collected best (seen ++ [entry]) (kept ++ more) byHash) :
    Earliest best (seen ++ [entry]) (kept ++ more) := by
  intro other included above
  rcases List.mem_append.mp included with old | new
  · obtain ⟨member, among, same, before⟩ := earliest other old above
    exact ⟨member, List.mem_append_left more among, same, before⟩
  · obtain rfl := List.mem_singleton.mp new
    obtain ⟨member, among, same⟩ := collected.covers other included above
    refine ⟨member, among, same, ?_⟩
    have increasing := zipIdx_increasing revisions
    rw [split, List.append_cons] at increasing
    have ordered := (List.pairwise_append.mp (List.pairwise_append.mp increasing).1).2.2
    rcases List.mem_append.mp (collected.sublist.subset among) with earlier | here
    · exact ordered member earlier other (List.mem_singleton_self other)
    · exact (congrArg Prod.snd (List.mem_singleton.mp here)).le

theorem collected_all {before : List Revision} (after : List Revision)
    (below : ∀ revision ∈ before, revision.rankKey < best.rankKey) :
    ∃ kept, Collected best (before ++ best :: after).zipIdx kept
        ((before ++ best :: after).zipIdx.foldl (pruneStep before.length best.freshness) []) ∧
      Earliest best (before ++ best :: after).zipIdx kept := by
  refine foldl_invariant (fun seen byHash => ∃ kept, Collected best seen kept byHash ∧
    Earliest best seen kept) ⟨[], ⟨by simp, rfl, by simp, by simp, by simp⟩, by simp [Earliest]⟩ ?_
  intro seen entry rest byHash split given
  obtain ⟨kept, collected, earliest⟩ := given
  obtain ⟨more, next⟩ := collected.step split below
  exact ⟨kept ++ more, next, earliest.step split next⟩

theorem Collected.keep {revisions : List Revision}
    (collected : Collected best revisions.zipIdx kept byHash) :
    ((byHash.map (·.2)).insertionSort (· ≤ ·)).filterMap (fun index => revisions[index]?) =
      kept.map (·.1) := by
  have increasing : (kept.map (·.2)).Pairwise (· ≤ ·) :=
    List.pairwise_map.mpr ((zipIdx_increasing revisions).sublist collected.sublist)
  have positions : (byHash.map (·.2)).insertionSort (· ≤ ·) = kept.map (·.2) := by
    refine List.Perm.eq_of_pairwise (fun _ _ _ _ => le_antisymm)
      (List.pairwise_insertionSort _ _) increasing ?_
    refine (List.perm_insertionSort _ _).trans ?_
    rw [collected.entries, List.map_reverse, List.map_map]
    exact List.reverse_perm _
  rw [positions, List.filterMap_map]
  have atPosition : ∀ entry ∈ kept, revisions[entry.2]? = some entry.1 := by
    intro entry member
    exact List.mk_mem_zipIdx_iff_getElem?.mp (collected.sublist.subset member)
  rw [← List.filterMap_eq_map]
  exact List.filterMap_congr atPosition

end Loop

private theorem pruned_of_short {revisions : List Revision} (short : revisions.length ≤ 1) :
    Pruned revisions revisions where
  sublist := List.Sublist.refl _
  top := by
    cases revisions with
    | nil => simp
    | cons head tail =>
        cases tail with
        | nil => simp
        | cons next rest => simp at short
  covers := fun revision found => ⟨revision, found.1, rfl⟩
  distinct := by
    cases revisions with
    | nil => simp
    | cons head tail =>
        cases tail with
        | nil => simp
        | cons next rest => simp at short

theorem chooseCurrent_revisions {revisions : List Revision} (nonempty : revisions ≠ []) :
    ∃ position best, IsFirstTopAt Revision.rankKey revisions position best ∧
      (chooseCurrent (revisions.map (·.freshness)) = .ok (.index position) ∨
        chooseCurrent (revisions.map (·.freshness)) = .ok (.ambiguous position)) := by
  have ranked : revisions.map (·.freshness) ≠ [] := by simpa using nonempty
  obtain ⟨position, current, chosen, answer⟩ := chooseCurrent_spec ranked
  obtain ⟨best, first, _⟩ := isFirstTopAt_of_map chosen
  exact ⟨position, best, first, answer.imp And.left And.left⟩

/-- Of two revisions or more, pruning keeps what its loop collects. -/
theorem pruneRevisions_collected {revisions : List Revision} (long : ¬ revisions.length ≤ 1) :
    ∃ position best kept byHash, IsFirstTopAt Revision.rankKey revisions position best ∧
      Collected best revisions.zipIdx kept byHash ∧ Earliest best revisions.zipIdx kept ∧
      pruneRevisions revisions = kept.map (·.1) := by
  have nonempty : revisions ≠ [] := by
    intro empty
    simp [empty] at long
  obtain ⟨position, best, chosen, answer⟩ := chooseCurrent_revisions nonempty
  have found : (revisions.map (·.freshness))[position]? = some best.freshness := by
    simp [chosen.getElem?]
  have first := chosen
  obtain ⟨before, after, rfl, rfl, below, _⟩ := chosen
  obtain ⟨kept, collected, earliest⟩ := collected_all after below
  refine ⟨before.length, best, kept, _, first, collected, earliest, ?_⟩
  rw [pruneRevisions, if_neg long, ← collected.keep]
  rcases answer with answer | answer
  · simp only [answer, Current.position, found]
  · simp only [answer, Current.position, found]

theorem pruneRevisions_spec (revisions : List Revision) :
    Pruned revisions (pruneRevisions revisions) := by
  by_cases short : revisions.length ≤ 1
  · rw [pruneRevisions, if_pos short]
    exact pruned_of_short short
  · obtain ⟨position, best, kept, byHash, chosen, collected, -, result⟩ :=
      pruneRevisions_collected short
    have top := chosen.isFirstTop.isTopOf
    rw [result]
    refine ⟨?_, ?_, ?_, ?_⟩
    · simpa using collected.sublist.map Prod.fst
    · intro revision member
      obtain ⟨entry, included, rfl⟩ := List.mem_map.mp member
      have present : entry.1 ∈ revisions := by
        simpa using List.mem_map_of_mem (f := Prod.fst) (collected.sublist.subset included)
      exact isTopOf_of_key_le top present (not_lt.mp (collected.top entry included))
    · intro revision greatest
      obtain ⟨index, atIndex⟩ := List.mem_iff_getElem?.mp greatest.1
      have entry : (revision, index) ∈ revisions.zipIdx :=
        List.mk_mem_zipIdx_iff_getElem?.mpr atIndex
      obtain ⟨member, included, same⟩ := collected.covers (revision, index) entry
        (not_lt.mpr (greatest.2 best top.1))
      exact ⟨member.1, List.mem_map_of_mem included, same⟩
    · simpa [Function.comp_def] using collected.distinct

/-- The revision that was chosen before pruning is the first one after it. -/
theorem pruneRevisions_first {revisions : List Revision} (nonempty : revisions ≠ []) :
    ∃ position best rest, IsFirstTopAt Revision.rankKey revisions position best ∧
      pruneRevisions revisions = best :: rest := by
  by_cases short : revisions.length ≤ 1
  · obtain ⟨best, rfl⟩ : ∃ best, revisions = [best] :=
      List.length_eq_one_iff.mp (short.antisymm (List.length_pos_of_ne_nil nonempty))
    exact ⟨0, best, [], ⟨[], [], rfl, rfl, by simp, by simp⟩, rfl⟩
  · obtain ⟨position, best, kept, byHash, chosen, collected, earliest, result⟩ :=
      pruneRevisions_collected short
    refine ⟨position, best, (kept.tail).map (·.1), chosen, ?_⟩
    have here : (best, position) ∈ revisions.zipIdx :=
      List.mk_mem_zipIdx_iff_getElem?.mpr chosen.getElem?
    obtain ⟨member, among, -, before⟩ := earliest _ here (lt_irrefl _)
    -- An entry before the best one is superseded, and none such is collected.
    have late : ∀ entry ∈ kept, position ≤ entry.2 := by
      intro entry included
      by_contra early
      have atEntry : revisions[entry.2]? = some entry.1 :=
        List.mk_mem_zipIdx_iff_getElem?.mp (collected.sublist.subset included)
      obtain ⟨front, back, rfl, rfl, below, -⟩ := chosen
      rw [List.getElem?_append_left (not_le.mp early)] at atEntry
      exact collected.top entry included (below _ (List.mem_of_getElem? atEntry))
    cases kept with
    | nil => cases among
    | cons head tail =>
        have increasing := (zipIdx_increasing revisions).sublist collected.sublist
        have first : head.2 ≤ member.2 := by
          rcases List.mem_cons.mp among with same | later
          · exact (congrArg Prod.snd same).ge
          · exact (List.pairwise_cons.mp increasing).1 member later
        have place : head.2 = position :=
          le_antisymm (first.trans before) (late head List.mem_cons_self)
        have atHead : revisions[head.2]? = some head.1 :=
          List.mk_mem_zipIdx_iff_getElem?.mp (collected.sublist.subset List.mem_cons_self)
        rw [place, chosen.getElem?, Option.some.injEq] at atHead
        rw [result, List.map_cons, ← atHead, List.tail_cons]

theorem pruneRevisions_idempotent (revisions : List Revision) :
    pruneRevisions (pruneRevisions revisions) = pruneRevisions revisions := by
  have once := pruneRevisions_spec revisions
  have twice := pruneRevisions_spec (pruneRevisions revisions)
  have unchanged : pruneRevisions revisions ⊆ pruneRevisions (pruneRevisions revisions) := by
    intro revision member
    obtain ⟨kept, among, same⟩ := twice.covers revision
      ((isTopOf_of_selected once.top).mpr member)
    have only : kept = revision := List.inj_on_of_nodup_map once.distinct
      (twice.sublist.subset among) member same
    exact only ▸ among
  have nodup : (pruneRevisions revisions).Nodup := once.distinct.of_map _
  exact twice.sublist.eq_of_length_le (nodup.subperm unchanged).length_le

theorem pruneRevisions_topBodies (revisions : List Revision) :
    topBodies Revision.rankKey (·.contentHash) (pruneRevisions revisions) =
      topBodies Revision.rankKey (·.contentHash) revisions :=
  topBodies_of_selected (pruneRevisions_spec revisions).top (pruneRevisions_spec revisions).covers

theorem pruneRevisions_ne_nil {revisions : List Revision} (nonempty : revisions ≠ []) :
    pruneRevisions revisions ≠ [] := by
  intro empty
  obtain ⟨best, found⟩ := exists_isTopOf Revision.rankKey nonempty
  obtain ⟨kept, included, _⟩ := (pruneRevisions_spec revisions).covers best found
  simp [empty] at included

theorem pruneRevisions_dominates {revisions : List Revision} {revision : Revision}
    (member : revision ∈ revisions) :
    ∃ kept ∈ pruneRevisions revisions, revision.rankKey ≤ kept.rankKey := by
  obtain ⟨best, found⟩ := exists_isTopOf Revision.rankKey (List.ne_nil_of_mem member)
  obtain ⟨kept, included, _⟩ := (pruneRevisions_spec revisions).covers best found
  exact ⟨kept, included, ((pruneRevisions_spec revisions).top kept included).2 revision member⟩

section Catalogs

def SessionRecord.pruned (session : SessionRecord) : SessionRecord :=
  { session with revisions := pruneRevisions session.revisions }

@[simp] theorem SessionRecord.pruned_key (session : SessionRecord) :
    session.pruned.key = session.key := rfl

@[simp] theorem SessionRecord.pruned_repoKey (session : SessionRecord) :
    session.pruned.repoKey = session.repoKey := rfl

theorem pruneToCurrent_sessions (catalog : Catalog) :
    (pruneToCurrent catalog).sessions = catalog.sessions.map (·.pruned) := rfl

theorem mem_pruneToCurrent {catalog : Catalog} {session : SessionRecord} :
    session ∈ (pruneToCurrent catalog).sessions ↔
      ∃ source ∈ catalog.sessions, source.pruned = session := by
  rw [pruneToCurrent_sessions, List.mem_map]

end Catalogs

end AgentTranscript
