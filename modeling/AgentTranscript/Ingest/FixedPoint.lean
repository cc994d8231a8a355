import AgentTranscript.Ingest.Current

/-! A second ingest run over the same sources changes nothing in the catalog: what
it sends again is what the first commit superseded. -/

set_option autoImplicit false

namespace AgentTranscript

open Loop Ranking

/-- A session as a commit leaves it: one rank, in strict order of its hashes. -/
structure Level (session : SessionRecord) : Prop where
  nonempty : session.revisions ≠ []
  ordered : session.revisions.Pairwise fun left right => left.contentHash < right.contentHash
  level : ∀ left ∈ session.revisions, ∀ right ∈ session.revisions, left.rankKey = right.rankKey

def SessionRecord.extend (session : SessionRecord) (added : List Revision) : SessionRecord :=
  { session with revisions := session.revisions ++ added }

theorem Level.isTopOf_iff {session : SessionRecord} (settled : Level session)
    {added revisions : List Revision} (below : ∀ extra ∈ added, ∀ revision ∈ session.revisions,
      extra.rankKey < revision.rankKey)
    (mem : ∀ revision, revision ∈ revisions ↔ revision ∈ session.revisions ∨ revision ∈ added)
    {revision : Revision} :
    IsTopOf Revision.rankKey revisions revision ↔ revision ∈ session.revisions := by
  constructor
  · intro best
    rcases (mem revision).mp best.1 with ours | extra
    · exact ours
    · obtain ⟨first, member⟩ := List.exists_mem_of_ne_nil _ settled.nonempty
      exact absurd (best.2 first ((mem first).mpr (.inl member)))
        (below revision extra first member).not_ge
  · intro member
    refine ⟨(mem revision).mpr (.inl member), ?_⟩
    intro other present
    rcases (mem other).mp present with ours | extra
    · exact (settled.level other ours revision member).le
    · exact (below other extra revision member).le

theorem eq_of_hashes_sorted {left right : List Revision}
    (leftSorted : left.Pairwise fun first second => first.contentHash < second.contentHash)
    (rightSorted : right.Pairwise fun first second => first.contentHash < second.contentHash)
    (members : ∀ revision, revision ∈ left ↔ revision ∈ right) : left = right := by
  have perm : left.Perm right :=
    (List.perm_ext_iff_of_nodup (leftSorted.imp fun before equal => before.ne (congrArg _ equal))
      (rightSorted.imp fun before equal => before.ne (congrArg _ equal))).mpr members
  exact perm.eq_of_pairwise (fun _ _ _ _ before after => absurd before after.not_gt)
    leftSorted rightSorted

/-- Pruning drops what was added below the rank of a level session. -/
theorem Level.prune_extend {session : SessionRecord} (settled : Level session)
    {added : List Revision} (below : ∀ extra ∈ added, ∀ revision ∈ session.revisions,
      extra.rankKey < revision.rankKey) : (session.extend added).sorted.pruned = session := by
  have pruned := pruneRevisions_spec (session.extend added).sorted.revisions
  have mem : ∀ revision, revision ∈ (session.extend added).sorted.revisions ↔
      revision ∈ session.revisions ∨ revision ∈ added := by
    intro revision
    rw [SessionRecord.mem_sorted]
    exact List.mem_append
  have unique : ∀ left ∈ session.revisions, ∀ right ∈ session.revisions,
      left.contentHash = right.contentHash → left = right :=
    fun left leftIn right rightIn same => List.inj_on_of_nodup_map
      (List.pairwise_map.mpr (settled.ordered.imp fun before => before.ne)) leftIn rightIn same
  have members : ∀ revision,
      revision ∈ pruneRevisions (session.extend added).sorted.revisions ↔
        revision ∈ session.revisions := by
    intro revision
    constructor
    · exact fun kept => (settled.isTopOf_iff below mem).mp (pruned.top revision kept)
    · intro member
      obtain ⟨kept, included, same⟩ :=
        pruned.covers revision ((settled.isTopOf_iff below mem).mpr member)
      have ours := (settled.isTopOf_iff below mem).mp (pruned.top kept included)
      exact unique kept ours revision member same ▸ included
  have ordered : (pruneRevisions (session.extend added).sorted.revisions).Pairwise
      fun left right => left.contentHash < right.contentHash :=
    (((session.extend added).sorted_pairwise.sublist pruned.sublist).and
      (List.pairwise_map.mp pruned.distinct)).imp fun both => lt_of_le_of_ne both.1 both.2
  unfold SessionRecord.pruned
  rw [eq_of_hashes_sorted ordered settled.ordered members]
  rfl

section Update

variable [HarnessNames] {catalog incoming updated : Catalog}

structure Settled (catalog : Catalog) : Prop where
  schema : catalog.schema = catalogSchema
  sorted : catalog.sessions.Pairwise fun left right => left.sortKey < right.sortKey
  level : ∀ session ∈ catalog.sessions, Level session

theorem updateCatalog_settled (unique : (catalog.sessions.map (·.key)).Nodup)
    (accepted : updateCatalog catalog incoming = .ok updated) : Settled updated := by
  obtain ⟨merged, succeeded, rfl⟩ := updateCatalog_ok_iff.mp accepted
  refine ⟨updateCatalog_schema accepted, ?_, ?_⟩
  · rw [pruneToCurrent_sessions, List.pairwise_map]
    exact mergeCatalogs_sorted succeeded unique
  · intro session member
    obtain ⟨source, present, rfl⟩ := mem_pruneToCurrent.mp member
    have pruned := pruneRevisions_spec source.revisions
    refine ⟨pruneRevisions_ne_nil (mergeCatalogs_nonempty succeeded present), ?_, ?_⟩
    · obtain ⟨_, _, sessions, _, _, rfl⟩ := mergeCatalogs_ok_iff.mp succeeded
      obtain ⟨origin, _, rfl⟩ := mem_merged_sessions.mp present
      exact ((origin.sorted_pairwise.sublist pruned.sublist).and
        (List.pairwise_map.mp pruned.distinct)).imp fun both => lt_of_le_of_ne both.1 both.2
    · exact fun left leftIn right rightIn =>
        (pruned.top left leftIn).key_eq (pruned.top right rightIn)

def extended (sessions : List SessionRecord) (added : SessionKey → List Revision) :
    List SessionRecord :=
  sessions.map fun session => session.extend (added session.key)

omit [HarnessNames] in
theorem extended_keys (sessions : List SessionRecord) (added : SessionKey → List Revision) :
    (extended sessions added).map (·.key) = sessions.map (·.key) := by
  simp [extended, SessionRecord.extend, Function.comp_def]

theorem mergeSession_extended {sessions merged : List SessionRecord} {session : SessionRecord}
    {added : SessionKey → List Revision}
    (accepted : mergeSession (extended sessions added) session = .ok merged)
    (unique : (sessions.map (·.key)).Nodup) (present : session.key ∈ sessions.map (·.key)) :
    ∃ new, new ⊆ session.revisions ∧
      merged = extended sessions
        (Function.update added session.key (added session.key ++ new)) := by
  have shape := mergeSession_eq_map accepted (by rwa [extended_keys]) (by rwa [extended_keys])
  obtain ⟨existing, member, sameKey⟩ := List.mem_map.mp present
  obtain ⟨new, appended, included⟩ := addRevisions_eq_append
    (existing.extend (added session.key)).revisions session.revisions
  refine ⟨new, included, ?_⟩
  rw [shape, extended, extended, List.map_map]
  apply List.map_congr_left
  intro other otherIn
  by_cases ours : other.key = session.key
  · have same : other = existing :=
      List.inj_on_of_nodup_map unique otherIn member (ours.trans sameKey.symm)
    subst same
    simp only [Function.comp_apply, SessionRecord.extend, SessionRecord.key_with_revisions, ours,
      if_true, Function.update_self]
    simp only [SessionRecord.extend] at appended
    rw [appended, List.append_assoc]
  · simp [SessionRecord.extend, ours]

/-- Submitting revisions of known sessions, all below the rank their session has,
leaves a settled catalog as it is. -/
theorem updateCatalog_superseded (settled : Settled catalog)
    (known : ∀ session ∈ incoming.sessions, session.key ∈ catalog.sessions.map (·.key))
    (below : ∀ session ∈ incoming.sessions, ∀ extra ∈ session.revisions,
      ∀ revision ∈ revisionsOf catalog.sessions session.key, extra.rankKey < revision.rankKey)
    (accepted : updateCatalog catalog incoming = .ok updated) : updated = catalog := by
  have unique := keys_nodup_of_sorted settled.sorted
  obtain ⟨merged, succeeded, rfl⟩ := updateCatalog_ok_iff.mp accepted
  obtain ⟨_, _, sessions, folded, _, rfl⟩ := mergeCatalogs_ok_iff.mp succeeded
  have grown : ∃ added, sessions = extended catalog.sessions added ∧
      ∀ session ∈ catalog.sessions, ∀ extra ∈ added session.key,
        ∀ revision ∈ session.revisions, extra.rankKey < revision.rankKey := by
    apply foldlM_ok_invariant folded (fun _ current => ∃ added,
      current = extended catalog.sessions added ∧
      ∀ session ∈ catalog.sessions, ∀ extra ∈ added session.key,
        ∀ revision ∈ session.revisions, extra.rankKey < revision.rankKey)
    · exact ⟨fun _ => [], by simp [extended, SessionRecord.extend], by simp⟩
    · intro _ session current next member given stepped
      obtain ⟨added, shape, lower⟩ := given
      subst shape
      obtain ⟨new, included, rfl⟩ := mergeSession_extended stepped unique (known session member)
      refine ⟨_, rfl, ?_⟩
      intro other otherIn extra extraIn revision revisionIn
      by_cases ours : other.key = session.key
      · rw [ours, Function.update_self, List.mem_append] at extraIn
        rcases extraIn with old | added
        · exact lower other otherIn extra (ours ▸ old) revision revisionIn
        · exact below session member extra (included added) revision
            (mem_revisionsOf.mpr ⟨other, otherIn, ours, revisionIn⟩)
      · rw [Function.update_of_ne ours] at extraIn
        exact lower other otherIn extra extraIn revision revisionIn
  obtain ⟨added, rfl, lower⟩ := grown
  have inOrder : sortSessions (extended catalog.sessions added) =
      extended catalog.sessions added := by
    apply List.Pairwise.insertionSort_eq
    rw [extended, List.pairwise_map]
    exact settled.sorted.imp fun before => before.le
  have restored : (extended catalog.sessions added).map (fun session => session.sorted.pruned) =
      catalog.sessions := by
    rw [extended, List.map_map]
    apply List.map_congr_left (g := id) _ |>.trans (List.map_id _)
    intro session member
    exact (settled.level session member).prune_extend (lower session member)
  obtain ⟨schema, stored⟩ := catalog
  simp only [pruneToCurrent, inOrder, Catalog.mk.injEq]
  refine ⟨settled.schema.symm, ?_⟩
  rw [List.map_map]
  exact restored

/-- It is enough that each submitted revision is below one revision of its session:
a settled session has all its revisions at one rank. -/
theorem updateCatalog_below (settled : Settled catalog)
    (nonempty : ∀ session ∈ incoming.sessions, session.revisions ≠ [])
    (lower : ∀ session ∈ incoming.sessions, ∀ extra ∈ session.revisions,
      ∃ revision ∈ revisionsOf catalog.sessions session.key, extra.rankKey < revision.rankKey)
    (accepted : updateCatalog catalog incoming = .ok updated) : updated = catalog := by
  apply updateCatalog_superseded settled _ _ accepted
  · intro session member
    obtain ⟨extra, included⟩ := List.exists_mem_of_ne_nil _ (nonempty session member)
    obtain ⟨revision, found, _⟩ := lower session member extra included
    obtain ⟨source, present, sameKey, _⟩ := mem_revisionsOf.mp found
    exact sameKey ▸ List.mem_map_of_mem present
  · intro session member extra included other otherIn
    obtain ⟨revision, found, below⟩ := lower session member extra included
    obtain ⟨left, leftIn, leftKey, ours⟩ := mem_revisionsOf.mp found
    obtain ⟨right, rightIn, rightKey, theirs⟩ := mem_revisionsOf.mp otherIn
    have same : left = right := List.inj_on_of_nodup_map (keys_nodup_of_sorted settled.sorted)
      leftIn rightIn (leftKey.trans rightKey.symm)
    subst same
    exact below.trans_eq ((settled.level left leftIn).level revision ours other theirs)

end Update

section Again

variable [HarnessNames] [DocumentCodec] {load : Load} {nonces later : Nat → Nonce}
  {report repeated : Report} {records : List SourceRecord} {catalog committed : Catalog}
  {first second : Scan}

theorem ingest_superseded (steady : Steady load records)
    (once : ingest load nonces report records catalog = .ok (first, committed))
    {record : SourceRecord} (member : record ∈ records) (ready : record.state = .ready)
    (undisplaced : Undisplaced (visibleSnapshots catalog records record.key) record.freshness)
    (gone : ¬ Archives committed.sessions record.archiveKey) :
    ∃ revision ∈ revisionsOf committed.sessions record.key,
      record.freshness.rankKey < revision.rankKey := by
  obtain ⟨accepted, commits⟩ := ingest_ok once
  have scanning := scan_scanning steady accepted
  have known := (scanning.known _).mp (scanning.covered record member ready)
  obtain ⟨copy, same, side, above, present, _, fate⟩ := commitAlone_dominates commits known
  have lost : copy.rankKey < above.rankKey := fate.resolve_left gone
  refine ⟨above, present, ?_⟩
  by_cases stale : copy.rankKey < record.freshness.rankKey
  · -- A stale copy still outranks every other body, so it would have been kept.
    have different : above.contentHash ≠ record.contentHash :=
      fun equal => gone ⟨above, present, equal⟩
    have listed : ∀ revision, revision ∈ revisionsOf catalog.sessions record.key ∨
        revision ∈ revisionsOf first.incoming.sessions record.key →
        revision.freshness ∈ visibleSnapshots catalog records record.key :=
      fun revision either => scanning.visible either
    have below := undisplaced copy.freshness (listed copy side) same stale above.freshness
      (listed above (commitAlone_origin commits present)) different
    exact absurd lost below.not_gt
  · exact (not_lt.mp stale).trans_lt lost

omit [DocumentCodec] in
theorem Scanning.incoming_empty {seen : List SourceRecord}
    (scanning : Scanning catalog seen first)
    (archived : ∀ record ∈ seen, record.state = .ready →
      Archives catalog.sessions record.archiveKey) : first.incoming.sessions = [] := by
  apply List.eq_nil_iff_forall_not_mem.mpr
  intro session member
  obtain ⟨revision, included⟩ :=
    List.exists_mem_of_ne_nil _ (scanning.wellFormed.nonempty session member)
  obtain ⟨record, present, ready, _, _, _, fresh⟩ :=
    scanning.origin session member revision included
  exact fresh (archived record present ready)

/-- A second run over the same sources leaves the catalog as it is, and uploads
only the bodies that the first commit superseded. -/
theorem ingest_again (unique : (catalog.sessions.map (·.key)).Nodup)
    (steady : Steady load records)
    (undisplaced : ∀ record ∈ records, record.state = .ready →
      Undisplaced (visibleSnapshots catalog records record.key) record.freshness)
    (once : ingest load nonces report records catalog = .ok (first, committed))
    {final : Catalog}
    (again : ingest load later repeated records committed = .ok (second, final)) :
    final = committed ∧
      (∀ object, object ∈ second.uploads.map (·.objectKey) ↔
        ∃ record ∈ records, record.state = .ready ∧
          ¬ Archives committed.sessions record.archiveKey ∧
          objectKey record.contentHash = .ok object) ∧
      ∀ record ∈ records, record.state = .ready →
        ¬ Archives committed.sessions record.archiveKey →
        ∃ revision ∈ revisionsOf committed.sessions record.key,
          record.freshness.rankKey < revision.rankKey := by
  obtain ⟨accepted, commits⟩ := ingest_ok once
  obtain ⟨acceptedAgain, commitsAgain⟩ := ingest_ok again
  have scanning := scan_scanning steady accepted
  have rescanning := scan_scanning steady acceptedAgain
  have superseded : ∀ record ∈ records, record.state = .ready →
      ¬ Archives committed.sessions record.archiveKey →
      ∃ revision ∈ revisionsOf committed.sessions record.key,
        record.freshness.rankKey < revision.rankKey := fun record member ready gone =>
    ingest_superseded steady once member ready (undisplaced record member ready) gone
  refine ⟨?_, fun object => rescanning.mem_uploads, superseded⟩
  unfold commitAlone at commitsAgain
  split at commitsAgain
  · exact (Except.ok.inj commitsAgain).symm
  · rename_i submits
    unfold commitAlone at commits
    split at commits
    · -- Nothing was submitted the first time, so everything was archived already.
      rename_i empty
      cases commits
      have archived : ∀ record ∈ records, record.state = .ready →
          Archives catalog.sessions record.archiveKey := by
        intro record member ready
        have known := (scanning.known _).mp (scanning.covered record member ready)
        refine known.resolve_right ?_
        simp [Archives, revisionsOf, List.isEmpty_iff.mp empty]
      exact absurd (List.isEmpty_iff.mpr (rescanning.incoming_empty archived)) submits
    · have settled := updateCatalog_settled unique commits
      apply updateCatalog_below settled rescanning.wellFormed.nonempty _ commitsAgain
      intro session member extra included
      obtain ⟨record, present, ready, sameKey, _, described, gone⟩ :=
        rescanning.origin session member extra included
      obtain ⟨revision, found, below⟩ := superseded record present ready gone
      exact ⟨revision, sameKey ▸ found, by rw [Revision.rankKey, described]; exact below⟩

end Again

section Example

attribute [local instance] HarnessNames.snakeCase DocumentCodec.padded

def ingestTwice (records : List SourceRecord) (catalog : Catalog) :
    Except Error (List String × Bool) := do
  let once ← ingest loadText (fun _ => []) .default records catalog
  let again ← ingest loadText (fun _ => []) .default records once.2
  .ok (again.1.uploads.map (·.objectKey), again.2 = once.2)

def olderRecords : List SourceRecord :=
  [textRecord "repo" "aaa" 1, textRecord "repo" "abb" 5]

theorem ingestTwice_older : ingestTwice olderRecords Catalog.empty =
    .ok ([(Revision.bare (textHash "aaa") 1).objectKey], true) := by
  decide +kernel

theorem ingest_again_older : ∃ first second committed final,
    ingest loadText (fun _ => []) .default olderRecords Catalog.empty = .ok (first, committed) ∧
    ingest loadText (fun _ => []) .default olderRecords committed = .ok (second, final) ∧
    final = committed ∧
    (∀ object, object ∈ second.uploads.map (·.objectKey) ↔
      ∃ record ∈ olderRecords, record.state = .ready ∧
        ¬ Archives committed.sessions record.archiveKey ∧
        objectKey record.contentHash = .ok object) ∧
    ∀ record ∈ olderRecords, record.state = .ready →
      ¬ Archives committed.sessions record.archiveKey →
      ∃ revision ∈ revisionsOf committed.sessions record.key,
        record.freshness.rankKey < revision.rankKey := by
  obtain ⟨once, first, rest⟩ := bind_ok ingestTwice_older
  obtain ⟨again, second, _⟩ := bind_ok rest
  have undisplaced : ∀ record ∈ olderRecords, record.state = .ready →
      Undisplaced (visibleSnapshots Catalog.empty olderRecords record.key) record.freshness := by
    unfold Undisplaced
    decide +kernel
  have steady : Steady loadText olderRecords :=
    textRecords_steady [("repo", "aaa", 1), ("repo", "abb", 5)] (by decide)
  exact ⟨once.1, again.1, once.2, again.2, first, second,
    ingest_again (by decide) steady undisplaced first second⟩

def touchedRecords : List SourceRecord :=
  [textRecord "repo" "aaa" 5, textRecord "repo" "abb" 3]

/-- The older copy `aaa` is sent again although nothing changed in between, and
so is the touched one, which then even takes its session back. -/
theorem ingest_sends_again :
    Steady loadText olderRecords ∧ ingestTwice olderRecords Catalog.empty =
      .ok ([(Revision.bare (textHash "aaa") 1).objectKey], true) ∧
    Steady loadText touchedRecords ∧ ingestTwice touchedRecords
        (Catalog.piece "repo" .codex "a" (.bare (textHash "aaa") 1)) =
      .ok ([(Revision.bare (textHash "aaa") 1).objectKey], false) :=
  ⟨textRecords_steady [("repo", "aaa", 1), ("repo", "abb", 5)] (by decide), ingestTwice_older,
    textRecords_steady [("repo", "aaa", 5), ("repo", "abb", 3)] (by decide), by decide +kernel⟩

end Example

end AgentTranscript
