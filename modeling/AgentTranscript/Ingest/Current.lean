import AgentTranscript.Ingest.ScanProperties
import AgentTranscript.Catalog.PruneProperties

/-! After an ingest run the catalog's current revision of a session is as new as
every local copy of it. -/

set_option autoImplicit false

namespace AgentTranscript

open Loop Ranking

section Commit

variable [HarnessNames] {catalog incoming committed : Catalog}

/-- Every archived or submitted hash has a copy that the commit does not fall
behind, and that it supersedes if the hash is archived no longer. -/
theorem commitAlone_dominates (accepted : commitAlone catalog incoming = .ok committed)
    {key : ArchiveKey}
    (present : Archives catalog.sessions key ∨ Archives incoming.sessions key) :
    ∃ copy, copy.contentHash = key.2.2 ∧
      (copy ∈ revisionsOf catalog.sessions (key.1, key.2.1) ∨
        copy ∈ revisionsOf incoming.sessions (key.1, key.2.1)) ∧
      ∃ other ∈ revisionsOf committed.sessions (key.1, key.2.1),
        copy.rankKey ≤ other.rankKey ∧
          (Archives committed.sessions key ∨ copy.rankKey < other.rankKey) := by
  unfold commitAlone at accepted
  split at accepted
  · rename_i empty
    cases accepted
    rcases present with stored | submitted
    · obtain ⟨copy, found, same⟩ := stored
      exact ⟨copy, same, .inl found, copy, found, le_rfl, .inl ⟨copy, found, same⟩⟩
    · obtain ⟨copy, found, _⟩ := submitted
      simp [List.isEmpty_iff.mp empty, revisionsOf] at found
  · obtain ⟨merged, succeeded, rfl⟩ := updateCatalog_ok_iff.mp accepted
    obtain ⟨session, member, sameKey, copy, included, same⟩ :=
      archives_iff.mp ((mergeCatalogs_archives succeeded).mpr present)
    obtain ⟨source, side, ofKey, _, found⟩ := (mergeCatalogs_origin succeeded member).2 copy included
    refine ⟨copy, same, ?_, ?_⟩
    · have listed : ∀ sessions, source ∈ sessions →
          copy ∈ revisionsOf sessions (key.1, key.2.1) := fun sessions present =>
        mem_revisionsOf.mpr ⟨source, present, ofKey.trans sameKey, found⟩
      exact side.imp (listed _) (listed _)
    · have listed : ∀ other ∈ pruneRevisions session.revisions,
          other ∈ revisionsOf (pruneToCurrent merged).sessions (key.1, key.2.1) :=
        fun other kept => mem_revisionsOf.mpr ⟨session.pruned,
          mem_pruneToCurrent.mpr ⟨session, member, rfl⟩, sameKey, kept⟩
      obtain ⟨other, kept, above⟩ := pruneRevisions_dominates included
      refine ⟨other, listed other kept, above, ?_⟩
      by_cases level : other.rankKey ≤ copy.rankKey
      · have best := (pruneRevisions_spec session.revisions).top other kept
        obtain ⟨twin, twinIn, agrees⟩ := (pruneRevisions_spec session.revisions).covers copy
          (isTopOf_of_key_le best included level)
        exact .inl ⟨twin, listed twin twinIn, agrees.trans same⟩
      · exact .inr (not_le.mp level)

theorem commitAlone_origin (accepted : commitAlone catalog incoming = .ok committed)
    {key : SessionKey} {revision : Revision}
    (found : revision ∈ revisionsOf committed.sessions key) :
    revision ∈ revisionsOf catalog.sessions key ∨ revision ∈ revisionsOf incoming.sessions key := by
  unfold commitAlone at accepted
  split at accepted
  · cases accepted
    exact .inl found
  · obtain ⟨session, member, sameKey, included⟩ := mem_revisionsOf.mp found
    obtain ⟨source, side, ofKey, _, present⟩ := updateCatalog_origin accepted member included
    have listed : ∀ sessions, source ∈ sessions → revision ∈ revisionsOf sessions key :=
      fun sessions member => mem_revisionsOf.mpr ⟨source, member, ofKey.trans sameKey, present⟩
    exact side.imp (listed _) (listed _)

end Commit

section Ingest

variable [HarnessNames] [DocumentCodec]

def visibleSnapshots (catalog : Catalog) (records : List SourceRecord) (key : SessionKey) :
    List Freshness :=
  (revisionsOf catalog.sessions key).map (·.freshness) ++
    (records.filter fun record => record.state = .ready && record.key = key).map (·.freshness)

omit [HarnessNames] [DocumentCodec] in
theorem mem_visibleSnapshots {catalog : Catalog} {records : List SourceRecord} {key : SessionKey}
    {freshness : Freshness} : freshness ∈ visibleSnapshots catalog records key ↔
      (∃ revision ∈ revisionsOf catalog.sessions key, revision.freshness = freshness) ∨
      ∃ record ∈ records, record.state = .ready ∧ record.key = key ∧
        record.freshness = freshness := by
  simp [visibleSnapshots, and_assoc]

omit [DocumentCodec] in
theorem Scanning.visible {catalog : Catalog} {records : List SourceRecord} {result : Scan}
    (scanning : Scanning catalog records result) {key : SessionKey} {revision : Revision}
    (either : revision ∈ revisionsOf catalog.sessions key ∨
      revision ∈ revisionsOf result.incoming.sessions key) :
    revision.freshness ∈ visibleSnapshots catalog records key := by
  rcases either with archived | submitted
  · exact mem_visibleSnapshots.mpr (.inl ⟨revision, archived, rfl⟩)
  · obtain ⟨session, present, sameKey, included⟩ := mem_revisionsOf.mp submitted
    obtain ⟨origin, originIn, isReady, ofKey, _, same, _⟩ :=
      scanning.origin session present revision included
    exact mem_visibleSnapshots.mpr (.inr ⟨origin, originIn, isReady, ofKey.trans sameKey,
      same.symm⟩)

/-- The current revision of a session serves a snapshot: it is the snapshot's
body, or at least as new. -/
def Serves (revisions : List Revision) (freshness : Freshness) : Prop :=
  ∃ answer current, chooseCurrent (revisions.map (·.freshness)) = .ok answer ∧
    revisions[answer.position]? = some current ∧
    ((∃ position, answer = .index position ∧ current.contentHash = freshness.contentHash) ∨
      freshness.rankKey ≤ current.rankKey)

omit [HarnessNames] [DocumentCodec] in
theorem serves_of_undisplaced {revisions : List Revision} {items : List Freshness}
    {freshness copy : Freshness} {above : Revision} (known : ∀ revision ∈ revisions,
      revision.freshness ∈ items) (undisplaced : Undisplaced items freshness)
    (listed : copy ∈ items) (same : copy.contentHash = freshness.contentHash)
    (present : above ∈ revisions) (notBehind : copy.rankKey ≤ above.rankKey) :
    Serves revisions freshness := by
  have nonempty : revisions.map (·.freshness) ≠ [] := by
    simpa using List.ne_nil_of_mem present
  obtain ⟨position, best, chosen, decided⟩ := chooseCurrent_spec nonempty
  obtain ⟨current, first, rfl⟩ := isFirstTopAt_of_map chosen
  have top := first.isFirstTop.isTopOf
  have answered : ∃ answer, chooseCurrent (revisions.map (·.freshness)) = .ok answer ∧
      answer.position = position := by
    rcases decided with only | several
    · exact ⟨_, only.1, rfl⟩
    · exact ⟨_, several.1, rfl⟩
  by_cases newer : freshness.rankKey ≤ current.rankKey
  · obtain ⟨answer, chose, atPosition⟩ := answered
    exact ⟨answer, current, chose, atPosition ▸ first.getElem?, .inr newer⟩
  · -- The copy is stale, so every body at the top is its own.
    have highest : copy.rankKey ≤ current.rankKey := notBehind.trans (top.2 above present)
    have stale : copy.rankKey < freshness.rankKey := highest.trans_lt (not_le.mp newer)
    have only : ∀ revision, IsTopOf Revision.rankKey revisions revision →
        revision.contentHash = freshness.contentHash := by
      intro revision best
      by_contra different
      have below := undisplaced copy listed same stale revision.freshness (known revision best.1)
        different
      exact absurd (highest.trans (best.key_eq top).ge) below.not_ge
    rcases decided with single | several
    · exact ⟨_, current, single.1, first.getElem?, .inl ⟨position, rfl, only current top⟩⟩
    · obtain ⟨one, ⟨_, oneTop, rfl⟩, other, ⟨_, otherTop, rfl⟩, different⟩ := several.2
      obtain ⟨left, leftTop, rfl⟩ := isTopOf_map.mp oneTop
      obtain ⟨right, rightTop, rfl⟩ := isTopOf_map.mp otherTop
      exact absurd ((only left leftTop).trans (only right rightTop).symm) different

/-- After a run that reads every source and commits alone, each session serves
every local copy of it that no older copy of the same body stands behind. -/
theorem ingest_serves {load : Load} {nonces : Nat → Nonce} {report : Report}
    {records : List SourceRecord} {catalog committed : Catalog} {result : Scan}
    (steady : Steady load records)
    (succeeded : ingest load nonces report records catalog = .ok (result, committed))
    {record : SourceRecord} (member : record ∈ records) (ready : record.state = .ready)
    (undisplaced : Undisplaced (visibleSnapshots catalog records record.key) record.freshness) :
    Serves (revisionsOf committed.sessions record.key) record.freshness := by
  obtain ⟨accepted, commits⟩ := ingest_ok succeeded
  have scanning := scan_scanning steady accepted
  have known := (scanning.known _).mp (scanning.covered record member ready)
  obtain ⟨copy, same, side, above, present, notBehind, _⟩ := commitAlone_dominates commits known
  refine serves_of_undisplaced ?_ undisplaced ?_ same present notBehind
  · exact fun revision found => scanning.visible (commitAlone_origin commits found)
  · exact scanning.visible side

end Ingest

section Example

attribute [local instance] HarnessNames.snakeCase DocumentCodec.padded

def freshRecords : List SourceRecord :=
  [textRecord "repo" "aaa" 5, textRecord "repo" "abb" 3]

theorem ingest_serves_fresh : ∃ result committed,
    ingest loadText (fun _ => []) .default freshRecords Catalog.empty = .ok (result, committed) ∧
    Serves (revisionsOf committed.sessions (.codex, "a"))
      (textRecord "repo" "abb" 3).freshness := by
  have finished : (ingest loadText (fun _ => []) .default freshRecords
      Catalog.empty).toOption.isSome := by decide +kernel
  cases outcome : ingest loadText (fun _ => []) .default freshRecords Catalog.empty with
  | error error => simp [outcome, Except.toOption] at finished
  | ok pair =>
      have undisplaced : Undisplaced (visibleSnapshots Catalog.empty freshRecords (.codex, "a"))
          (textRecord "repo" "abb" 3).freshness := by
        unfold Undisplaced
        decide +kernel
      have steady : Steady loadText freshRecords :=
        textRecords_steady [("repo", "aaa", 5), ("repo", "abb", 3)] (by decide)
      exact ⟨pair.1, pair.2, rfl, ingest_serves steady outcome
        (List.mem_cons_of_mem _ List.mem_cons_self) rfl undisplaced⟩

def tiedCatalog : Catalog where
  schema := catalogSchema
  sessions := [⟨"repo", .codex, "a", [.bare (textHash "aaa") 1, .bare (textHash "abb") 1]⟩]

/-- The source of `aaa` was touched at time 5: its hash is archived, so nothing
is sent, and the session stays tied at time 1. -/
theorem touched_not_served :
    validate tiedCatalog = .ok () ∧ Steady loadText [textRecord "repo" "aaa" 5] ∧
    ∃ result, ingest loadText (fun _ => []) .default [textRecord "repo" "aaa" 5] tiedCatalog =
        .ok (result, tiedCatalog) ∧
      ¬ Serves (revisionsOf tiedCatalog.sessions (.codex, "a"))
        (textRecord "repo" "aaa" 5).freshness := by
  refine ⟨by decide, textRecords_steady [("repo", "aaa", 5)] (by decide),
    ⟨[], Catalog.empty, _, 1, [], ∅⟩, rfl, ?_⟩
  intro given
  obtain ⟨answer, current, chose, atPosition, either⟩ := given
  have tied : chooseCurrent ((revisionsOf tiedCatalog.sessions (.codex, "a")).map
      (·.freshness)) = .ok (.ambiguous 0) := by decide
  have shown : (revisionsOf tiedCatalog.sessions (.codex, "a"))[0]? =
      some (.bare (textHash "aaa") 1) := by decide
  cases Except.ok.inj (chose.symm.trans tied)
  cases Option.some.inj (atPosition.symm.trans shown)
  rcases either with index | above
  · obtain ⟨position, wrong, _⟩ := index
    cases wrong
  · have older : ¬ (textRecord "repo" "aaa" 5).freshness.rankKey ≤
      (Revision.bare (textHash "aaa") 1).rankKey := by decide
    exact older above

end Example

end AgentTranscript
