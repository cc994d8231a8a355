import AgentTranscript.Library.Loop
import AgentTranscript.Catalog.Basic

/-! What `merge_catalogs` does to the sessions and revisions it is given. -/

set_option autoImplicit false

namespace AgentTranscript

open Loop

theorem mem_addRevision {revisions : List Revision} {revision member : Revision}
    (found : member ∈ addRevision revisions revision) :
    member ∈ revisions ∨ member = revision := by
  unfold addRevision at found
  split at found
  · exact .inl found
  · simpa using found

theorem subset_addRevision (revisions : List Revision) (revision : Revision) :
    revisions ⊆ addRevision revisions revision := by
  unfold addRevision
  split
  · exact fun _ member => member
  · exact List.subset_append_left _ _

theorem addRevision_covers (revisions : List Revision) (revision : Revision) :
    ∃ member ∈ addRevision revisions revision,
      member.contentHash = revision.contentHash := by
  unfold addRevision
  split
  · rename_i present
    simpa using present
  · exact ⟨revision, by simp, rfl⟩

theorem addRevision_nodup {revisions : List Revision} (revision : Revision)
    (distinct : (revisions.map (·.contentHash)).Nodup) :
    ((addRevision revisions revision).map (·.contentHash)).Nodup := by
  unfold addRevision
  split
  · exact distinct
  · rename_i absent
    rw [List.map_append, List.map_singleton, List.nodup_append]
    refine ⟨distinct, by simp, ?_⟩
    intro old included new single same
    obtain ⟨current, member, rfl⟩ := List.mem_map.mp included
    have repeated : current.contentHash = revision.contentHash := by
      simpa [← same] using single
    exact absent (List.any_eq_true.mpr ⟨current, member, by simpa using repeated⟩)

theorem mem_addRevisions {existing incoming : List Revision} {member : Revision}
    (found : member ∈ addRevisions existing incoming) :
    member ∈ existing ∨ member ∈ incoming := by
  induction incoming generalizing existing with
  | nil => exact .inl found
  | cons head tail ih =>
      have resumed : member ∈ addRevisions (addRevision existing head) tail := found
      rcases ih resumed with earlier | later
      · rcases mem_addRevision earlier with old | new
        · exact .inl old
        · exact .inr (by simp [new])
      · exact .inr (List.mem_cons_of_mem _ later)

theorem subset_addRevisions (existing incoming : List Revision) :
    existing ⊆ addRevisions existing incoming := by
  induction incoming generalizing existing with
  | nil => exact fun _ member => member
  | cons head tail ih =>
      exact List.Subset.trans (subset_addRevision existing head) (ih (addRevision existing head))

theorem addRevisions_covers {existing incoming : List Revision} {revision : Revision}
    (submitted : revision ∈ incoming) :
    ∃ member ∈ addRevisions existing incoming,
      member.contentHash = revision.contentHash := by
  induction incoming generalizing existing with
  | nil => cases submitted
  | cons head tail ih =>
      rcases List.mem_cons.mp submitted with same | later
      · obtain ⟨member, included, hash⟩ := addRevision_covers existing head
        exact ⟨member, subset_addRevisions _ tail included, same ▸ hash⟩
      · exact ih later

theorem addRevisions_nodup {existing : List Revision} (incoming : List Revision)
    (distinct : (existing.map (·.contentHash)).Nodup) :
    ((addRevisions existing incoming).map (·.contentHash)).Nodup := by
  induction incoming generalizing existing with
  | nil => exact distinct
  | cons head tail ih => exact ih (addRevision_nodup head distinct)

theorem addRevisions_eq_append (existing incoming : List Revision) :
    ∃ added, addRevisions existing incoming = existing ++ added ∧ added ⊆ incoming := by
  induction incoming generalizing existing with
  | nil => exact ⟨[], by simp [addRevisions], fun _ member => member⟩
  | cons head tail ih =>
      obtain ⟨added, shape, included⟩ := ih (addRevision existing head)
      rw [addRevisions, List.foldl_cons, ← addRevisions, shape]
      unfold addRevision
      split
      · exact ⟨added, rfl, List.subset_cons_of_subset _ included⟩
      · exact ⟨head :: added, by simp, List.cons_subset_cons _ included⟩

def revisionsOf (sessions : List SessionRecord) (key : SessionKey) : List Revision :=
  (sessions.filter fun session => session.key = key).flatMap (·.revisions)

@[simp] theorem mem_revisionsOf {sessions : List SessionRecord} {key : SessionKey}
    {revision : Revision} :
    revision ∈ revisionsOf sessions key ↔
      ∃ session ∈ sessions, session.key = key ∧ revision ∈ session.revisions := by
  simp [revisionsOf, and_assoc]

@[simp] theorem SessionRecord.key_with_revisions (session : SessionRecord)
    (revisions : List Revision) :
    SessionRecord.key { session with revisions := revisions } = session.key := rfl

/-- `later` continues `earlier`: the same session with at least its revisions. -/
structure Continues (earlier later : SessionRecord) : Prop where
  key : later.key = earlier.key
  repoKey : later.repoKey = earlier.repoKey
  revisions : earlier.revisions ⊆ later.revisions

theorem Continues.refl (session : SessionRecord) : Continues session session :=
  ⟨rfl, rfl, fun _ member => member⟩

theorem Continues.trans {first second third : SessionRecord} (start : Continues first second)
    (next : Continues second third) : Continues first third :=
  ⟨next.key.trans start.key, next.repoKey.trans start.repoKey,
    List.Subset.trans start.revisions next.revisions⟩

section Sessions

variable [HarnessNames]

/-- The two outcomes of merging one session: its key is new, or the first
session of that key has the same repository and takes the revisions in. -/
theorem mergeSession_cases {sessions merged : List SessionRecord} {incoming : SessionRecord}
    (accepted : mergeSession sessions incoming = .ok merged) :
    (incoming.key ∉ sessions.map (·.key) ∧ merged = sessions ++ [incoming]) ∨
    ∃ before existing after, sessions = before ++ existing :: after ∧
      incoming.key ∉ before.map (·.key) ∧ existing.key = incoming.key ∧
      existing.repoKey = incoming.repoKey ∧
      merged = before ++ { existing with
        revisions := addRevisions existing.revisions incoming.revisions } :: after := by
  induction sessions generalizing merged with
  | nil =>
      cases accepted
      exact .inl ⟨by simp, rfl⟩
  | cons head tail ih =>
      unfold mergeSession at accepted
      split at accepted
      · rename_i sameKey
        split at accepted
        · cases accepted
        · rename_i sameRepo
          cases accepted
          exact .inr ⟨[], head, tail, rfl, by simp, sameKey, not_not.mp sameRepo, rfl⟩
      · rename_i otherKey
        obtain ⟨rest, recursive, shape⟩ := bind_ok accepted
        cases shape
        rcases ih recursive with appended | updated
        · obtain ⟨fresh, rfl⟩ := appended
          exact .inl ⟨by simpa [Ne.symm otherKey] using fresh, rfl⟩
        · obtain ⟨before, existing, after, rfl, fresh, sameKey, sameRepo, rfl⟩ := updated
          exact .inr ⟨head :: before, existing, after, rfl,
            by simpa [Ne.symm otherKey] using fresh, sameKey, sameRepo, rfl⟩

theorem mergeSession_ok_iff {sessions : List SessionRecord} {incoming : SessionRecord} :
    (∃ merged, mergeSession sessions incoming = .ok merged) ↔
      ∀ existing, sessions.find? (fun session => session.key = incoming.key) = some existing →
        existing.repoKey = incoming.repoKey := by
  induction sessions with
  | nil => simp [mergeSession]
  | cons head tail ih =>
      unfold mergeSession
      by_cases sameKey : head.key = incoming.key
      · by_cases sameRepo : head.repoKey = incoming.repoKey
        · simp [sameKey, sameRepo]
        · simp [sameKey, sameRepo]
      · simp only [sameKey, if_false, List.find?_cons, decide_false]
        rw [← ih]
        constructor
        · intro given
          obtain ⟨merged, accepted⟩ := given
          obtain ⟨rest, recursive, _⟩ := bind_ok accepted
          exact ⟨rest, recursive⟩
        · intro given
          obtain ⟨rest, recursive⟩ := given
          exact ⟨head :: rest, by rw [recursive]; rfl⟩

theorem mergeSession_keys {sessions merged : List SessionRecord} {incoming : SessionRecord}
    (accepted : mergeSession sessions incoming = .ok merged)
    (distinct : (sessions.map (·.key)).Nodup) : (merged.map (·.key)).Nodup := by
  rcases mergeSession_cases accepted with appended | updated
  · obtain ⟨fresh, rfl⟩ := appended
    rw [List.map_append, List.map_singleton, List.nodup_append]
    refine ⟨distinct, by simp, ?_⟩
    intro old included new single same
    exact fresh (by simpa [← List.mem_singleton.mp single, ← same] using included)
  · obtain ⟨before, existing, after, rfl, _, _, _, rfl⟩ := updated
    simpa using distinct

theorem mergeSession_eq_map {sessions merged : List SessionRecord} {incoming : SessionRecord}
    (accepted : mergeSession sessions incoming = .ok merged)
    (distinct : (sessions.map (·.key)).Nodup) (present : incoming.key ∈ sessions.map (·.key)) :
    merged = sessions.map fun session =>
      if session.key = incoming.key then
        { session with revisions := addRevisions session.revisions incoming.revisions }
      else session := by
  rcases mergeSession_cases accepted with appended | updated
  · exact absurd present appended.1
  · obtain ⟨before, existing, after, rfl, fresh, sameKey, _, rfl⟩ := updated
    have others : ∀ session ∈ before ++ after, session.key ≠ incoming.key := by
      rw [List.map_append, List.map_cons, List.nodup_middle, List.nodup_cons] at distinct
      intro session member same
      have repeated := List.mem_map_of_mem (f := SessionRecord.key) member
      rw [List.map_append, same, ← sameKey] at repeated
      exact distinct.1 repeated
    have unchanged : ∀ part : List SessionRecord, (∀ session ∈ part, session ∈ before ++ after) →
        part.map (fun session => if session.key = incoming.key then
          { session with revisions := addRevisions session.revisions incoming.revisions }
          else session) = part := by
      intro part included
      apply List.map_congr_left (g := id) _ |>.trans (List.map_id part)
      intro session member
      rw [if_neg (others session (included session member)), id]
    rw [List.map_append, List.map_cons, if_pos sameKey,
      unchanged before fun session member => List.mem_append_left _ member,
      unchanged after fun session member => List.mem_append_right _ member]

theorem mergeSession_mem {sessions merged : List SessionRecord} {incoming session : SessionRecord}
    (accepted : mergeSession sessions incoming = .ok merged) (member : session ∈ merged) :
    session ∈ sessions ∨ session = incoming ∨
      ∃ existing ∈ sessions, existing.key = incoming.key ∧
        existing.repoKey = incoming.repoKey ∧ session = { existing with
          revisions := addRevisions existing.revisions incoming.revisions } := by
  rcases mergeSession_cases accepted with appended | updated
  · obtain ⟨_, rfl⟩ := appended
    rcases List.mem_append.mp member with old | new
    · exact .inl old
    · exact .inr (.inl (by simpa using new))
  · obtain ⟨before, existing, after, rfl, _, sameKey, sameRepo, rfl⟩ := updated
    rcases List.mem_append.mp member with old | rest
    · exact .inl (by simp [old])
    · rcases List.mem_cons.mp rest with new | old
      · exact .inr (.inr ⟨existing, by simp, sameKey, sameRepo, new⟩)
      · exact .inl (by simp [old])

theorem mergeSession_continues {sessions merged : List SessionRecord}
    {incoming session : SessionRecord} (accepted : mergeSession sessions incoming = .ok merged)
    (member : session ∈ sessions) : ∃ later ∈ merged, Continues session later := by
  rcases mergeSession_cases accepted with appended | updated
  · obtain ⟨_, rfl⟩ := appended
    exact ⟨session, by simp [member], .refl session⟩
  · obtain ⟨before, existing, after, rfl, _, _, _, rfl⟩ := updated
    rcases List.mem_append.mp member with old | rest
    · exact ⟨session, by simp [old], .refl session⟩
    · rcases List.mem_cons.mp rest with same | old
      · subst session
        exact ⟨_, List.mem_append_right _ List.mem_cons_self,
          ⟨rfl, rfl, subset_addRevisions _ _⟩⟩
      · exact ⟨session, by simp [old], .refl session⟩

theorem mergeSession_represents {sessions merged : List SessionRecord}
    {incoming : SessionRecord} (accepted : mergeSession sessions incoming = .ok merged) :
    ∃ later ∈ merged, later.key = incoming.key ∧ later.repoKey = incoming.repoKey ∧
      ∀ revision ∈ incoming.revisions, ∃ member ∈ later.revisions,
        member.contentHash = revision.contentHash := by
  rcases mergeSession_cases accepted with appended | updated
  · obtain ⟨_, rfl⟩ := appended
    exact ⟨incoming, by simp, rfl, rfl, fun revision member => ⟨revision, member, rfl⟩⟩
  · obtain ⟨before, existing, after, rfl, _, sameKey, sameRepo, rfl⟩ := updated
    exact ⟨_, List.mem_append_right _ List.mem_cons_self, sameKey, sameRepo,
      fun _ submitted => addRevisions_covers submitted⟩

end Sessions

section Sorting

theorem SessionRecord.sorted_perm (session : SessionRecord) :
    session.sorted.revisions.Perm session.revisions :=
  List.perm_insertionSort _ _

@[simp] theorem SessionRecord.mem_sorted {session : SessionRecord} {revision : Revision} :
    revision ∈ session.sorted.revisions ↔ revision ∈ session.revisions :=
  session.sorted_perm.mem_iff

@[simp] theorem SessionRecord.sorted_eq_nil {session : SessionRecord} :
    session.sorted.revisions = [] ↔ session.revisions = [] := by
  rw [← List.length_eq_zero_iff, session.sorted_perm.length_eq, List.length_eq_zero_iff]

theorem SessionRecord.sorted_pairwise (session : SessionRecord) :
    session.sorted.revisions.Pairwise fun left right => left.contentHash ≤ right.contentHash := by
  have total : Std.Total fun left right : Revision => left.contentHash ≤ right.contentHash :=
    ⟨fun left right => le_total _ _⟩
  have transitive : IsTrans Revision fun left right => left.contentHash ≤ right.contentHash :=
    ⟨fun _ _ _ => le_trans⟩
  exact List.pairwise_insertionSort _ _

theorem SessionRecord.sorted_strict {session : SessionRecord}
    (distinct : (session.revisions.map (·.contentHash)).Nodup) :
    session.sorted.revisions.Pairwise fun left right => left.contentHash < right.contentHash := by
  have unique : (session.sorted.revisions.map (·.contentHash)).Nodup :=
    (session.sorted_perm.map _).nodup_iff.mpr distinct
  have apart := List.pairwise_map.mp unique
  exact (session.sorted_pairwise.and apart).imp fun ordered => lt_of_le_of_ne ordered.1 ordered.2

end Sorting

section Catalogs

variable [HarnessNames]

theorem sortKey_injective_iff {left right : SessionRecord} :
    left.sortKey = right.sortKey ↔ left.key = right.key := by
  simp only [SessionRecord.sortKey, SessionRecord.key, EmbeddingLike.apply_eq_iff_eq,
    Prod.mk.injEq, HarnessNames.asStr_injective.eq_iff]

def sortSessions (sessions : List SessionRecord) : List SessionRecord :=
  sessions.insertionSort fun left right => left.sortKey ≤ right.sortKey

theorem sortSessions_perm (sessions : List SessionRecord) :
    (sortSessions sessions).Perm sessions :=
  List.perm_insertionSort _ _

theorem sortSessions_strict {sessions : List SessionRecord}
    (distinct : (sessions.map (·.key)).Nodup) :
    (sortSessions sessions).Pairwise fun left right => left.sortKey < right.sortKey := by
  have total : Std.Total fun left right : SessionRecord => left.sortKey ≤ right.sortKey :=
    ⟨fun left right => le_total _ _⟩
  have transitive : IsTrans SessionRecord fun left right => left.sortKey ≤ right.sortKey :=
    ⟨fun _ _ _ => le_trans⟩
  have ordered : (sortSessions sessions).Pairwise fun left right => left.sortKey ≤ right.sortKey :=
    List.pairwise_insertionSort _ _
  have unique : ((sortSessions sessions).map (·.key)).Nodup :=
    ((sortSessions_perm sessions).map _).nodup_iff.mpr distinct
  have apart := List.pairwise_map.mp unique
  exact (ordered.and apart).imp fun both =>
    lt_of_le_of_ne both.1 fun same => both.2 (sortKey_injective_iff.mp same)

theorem finishSession_ok {session : SessionRecord} (nonempty : session.revisions ≠ []) :
    finishSession session = .ok session.sorted := by
  simp [finishSession, nonempty]

theorem finishSession_error {session : SessionRecord} (empty : ¬ session.revisions ≠ []) :
    ∃ reason, finishSession session = .error reason := by
  exact ⟨noRevisions session, by simp [finishSession, not_not.mp empty]⟩

theorem mergeCatalogs_ok_iff {base incoming merged : Catalog} :
    mergeCatalogs base incoming = .ok merged ↔
      base.schema = catalogSchema ∧ incoming.schema = catalogSchema ∧
      ∃ sessions, incoming.sessions.foldlM mergeSession base.sessions = .ok sessions ∧
        (∀ session ∈ sessions, session.revisions ≠ []) ∧
        merged = { schema := catalogSchema,
                   sessions := (sortSessions sessions).map (·.sorted) } := by
  unfold mergeCatalogs
  by_cases baseSchema : base.schema = catalogSchema
  · by_cases incomingSchema : incoming.schema = catalogSchema
    · simp only [baseSchema, incomingSchema, ne_eq, not_true_eq_false, if_false, true_and]
      constructor
      · intro accepted
        obtain ⟨sessions, folded, rest⟩ := bind_ok accepted
        obtain ⟨finished, mapped, shape⟩ := bind_ok rest
        obtain ⟨nonempty, rfl⟩ :=
          (mapM_ok_iff (fun _ => finishSession_ok) (fun _ => finishSession_error)).mp mapped
        cases shape
        refine ⟨sessions, folded, ?_, rfl⟩
        exact fun session member => nonempty session ((sortSessions_perm sessions).mem_iff.mpr member)
      · intro given
        obtain ⟨sessions, folded, nonempty, shape⟩ := given
        have mapped : (sortSessions sessions).mapM finishSession =
            .ok ((sortSessions sessions).map (·.sorted)) :=
          (mapM_ok_iff (fun _ => finishSession_ok) (fun _ => finishSession_error)).mpr
            ⟨fun session member =>
              nonempty session ((sortSessions_perm sessions).mem_iff.mp member), rfl⟩
        rw [sortSessions] at mapped shape
        rw [folded, ok_bind, mapped, ok_bind, shape]
    · simp [baseSchema, incomingSchema]
  · simp [baseSchema]

variable {base incoming merged : Catalog}

theorem foldlM_mergeSession_forall {sessions incoming merged : List SessionRecord}
    (accepted : incoming.foldlM mergeSession sessions = .ok merged)
    (property : SessionRecord → Prop) (stored : ∀ session ∈ sessions, property session)
    (submitted : ∀ session ∈ incoming, property session)
    (absorb : ∀ existing session, property existing → property session →
      existing.key = session.key → existing.repoKey = session.repoKey →
      property { existing with revisions := addRevisions existing.revisions session.revisions }) :
    ∀ session ∈ merged, property session := by
  refine foldlM_ok_invariant accepted
    (fun _ current => ∀ session ∈ current, property session) stored ?_
  intro _ item state updated included holds stepped session member
  rcases mergeSession_mem stepped member with old | rest
  · exact holds session old
  · rcases rest with new | taken
    · exact new ▸ submitted item included
    · obtain ⟨existing, present, sameKey, sameRepo, rfl⟩ := taken
      exact absorb existing item (holds existing present) (submitted item included)
        sameKey sameRepo

theorem foldlM_mergeSession_nonempty {sessions incoming merged : List SessionRecord}
    (accepted : incoming.foldlM mergeSession sessions = .ok merged)
    (stored : ∀ session ∈ sessions, session.revisions ≠ [])
    (submitted : ∀ session ∈ incoming, session.revisions ≠ []) :
    ∀ session ∈ merged, session.revisions ≠ [] := by
  apply foldlM_mergeSession_forall accepted (fun session => session.revisions ≠ []) stored submitted
  intro existing session occupied _ _ _ empty
  obtain ⟨revision, member⟩ := List.exists_mem_of_ne_nil _ occupied
  have kept := subset_addRevisions existing.revisions session.revisions member
  have none : addRevisions existing.revisions session.revisions = [] := empty
  simp [none] at kept

theorem mem_merged_sessions {sessions : List SessionRecord} {session : SessionRecord} :
    session ∈ (sortSessions sessions).map (·.sorted) ↔
      ∃ source ∈ sessions, source.sorted = session := by
  simp only [List.mem_map, (sortSessions_perm sessions).mem_iff]

/-- Every session of either side of a merge comes out of it, and with it every
stored revision and every submitted content hash. -/
theorem mergeCatalogs_continues (accepted : mergeCatalogs base incoming = .ok merged)
    {session : SessionRecord} (member : session ∈ base.sessions) :
    ∃ later ∈ merged.sessions, Continues session later := by
  obtain ⟨_, _, sessions, folded, _, rfl⟩ := mergeCatalogs_ok_iff.mp accepted
  have grown : ∃ later ∈ sessions, Continues session later := by
    refine foldlM_ok_invariant folded
      (fun _ current => ∃ later ∈ current, Continues session later)
      ⟨session, member, .refl session⟩ ?_
    intro _ item state updated _ given stepped
    obtain ⟨later, present, continued⟩ := given
    obtain ⟨next, included, further⟩ := mergeSession_continues stepped present
    exact ⟨next, included, continued.trans further⟩
  obtain ⟨later, present, continued⟩ := grown
  refine ⟨later.sorted, mem_merged_sessions.mpr ⟨later, present, rfl⟩, continued.trans ?_⟩
  exact ⟨rfl, rfl, fun _ included => SessionRecord.mem_sorted.mpr included⟩

theorem mergeCatalogs_represents (accepted : mergeCatalogs base incoming = .ok merged)
    {session : SessionRecord} (member : session ∈ incoming.sessions) :
    ∃ later ∈ merged.sessions, later.key = session.key ∧ later.repoKey = session.repoKey ∧
      ∀ revision ∈ session.revisions, ∃ stored ∈ later.revisions,
        stored.contentHash = revision.contentHash := by
  obtain ⟨_, _, sessions, folded, _, rfl⟩ := mergeCatalogs_ok_iff.mp accepted
  have represented : ∀ submitted ∈ incoming.sessions, ∃ later ∈ sessions,
      later.key = submitted.key ∧ later.repoKey = submitted.repoKey ∧
      ∀ revision ∈ submitted.revisions, ∃ stored ∈ later.revisions,
        stored.contentHash = revision.contentHash := by
    refine foldlM_ok_invariant folded
      (fun seen current => ∀ submitted ∈ seen, ∃ later ∈ current,
        later.key = submitted.key ∧ later.repoKey = submitted.repoKey ∧
        ∀ revision ∈ submitted.revisions, ∃ stored ∈ later.revisions,
          stored.contentHash = revision.contentHash) (by simp) ?_
    intro seen item state updated _ holds stepped submitted included
    rcases List.mem_append.mp included with earlier | single
    · obtain ⟨later, present, sameKey, sameRepo, covered⟩ := holds submitted earlier
      obtain ⟨next, kept, further⟩ := mergeSession_continues stepped present
      refine ⟨next, kept, further.key.trans sameKey, further.repoKey.trans sameRepo, ?_⟩
      intro revision found
      obtain ⟨stored, storedIn, same⟩ := covered revision found
      exact ⟨stored, further.revisions storedIn, same⟩
    · cases List.mem_singleton.mp single
      exact mergeSession_represents stepped
  obtain ⟨later, present, sameKey, sameRepo, covered⟩ := represented session member
  refine ⟨later.sorted, mem_merged_sessions.mpr ⟨later, present, rfl⟩, sameKey, sameRepo, ?_⟩
  intro revision found
  obtain ⟨stored, storedIn, same⟩ := covered revision found
  exact ⟨stored, SessionRecord.mem_sorted.mpr storedIn, same⟩

theorem mergeCatalogs_forall (accepted : mergeCatalogs base incoming = .ok merged)
    (property : SessionRecord → Prop) (stored : ∀ session ∈ base.sessions, property session)
    (submitted : ∀ session ∈ incoming.sessions, property session)
    (absorb : ∀ existing session, property existing → property session →
      existing.key = session.key → existing.repoKey = session.repoKey →
      property { existing with revisions := addRevisions existing.revisions session.revisions })
    (sort : ∀ session, property session → property session.sorted) :
    ∀ session ∈ merged.sessions, property session := by
  obtain ⟨_, _, sessions, folded, _, rfl⟩ := mergeCatalogs_ok_iff.mp accepted
  have every := foldlM_mergeSession_forall folded property stored submitted absorb
  intro session member
  obtain ⟨source, present, rfl⟩ := mem_merged_sessions.mp member
  exact sort source (every source present)

theorem mergeCatalogs_origin (accepted : mergeCatalogs base incoming = .ok merged)
    {session : SessionRecord} (member : session ∈ merged.sessions) :
    (∃ source, (source ∈ base.sessions ∨ source ∈ incoming.sessions) ∧
        source.key = session.key ∧ source.repoKey = session.repoKey) ∧
      ∀ revision ∈ session.revisions, ∃ source,
        (source ∈ base.sessions ∨ source ∈ incoming.sessions) ∧ source.key = session.key ∧
        source.repoKey = session.repoKey ∧ revision ∈ source.revisions := by
  refine mergeCatalogs_forall accepted (fun session =>
      (∃ source, (source ∈ base.sessions ∨ source ∈ incoming.sessions) ∧
        source.key = session.key ∧ source.repoKey = session.repoKey) ∧
      ∀ revision ∈ session.revisions, ∃ source,
        (source ∈ base.sessions ∨ source ∈ incoming.sessions) ∧ source.key = session.key ∧
        source.repoKey = session.repoKey ∧ revision ∈ source.revisions)
    ?_ ?_ ?_ ?_ session member
  · exact fun source present => ⟨⟨source, .inl present, rfl, rfl⟩,
      fun _ found => ⟨source, .inl present, rfl, rfl, found⟩⟩
  · exact fun source present => ⟨⟨source, .inr present, rfl, rfl⟩,
      fun _ found => ⟨source, .inr present, rfl, rfl, found⟩⟩
  · intro existing session ofExisting ofSession sameKey sameRepo
    refine ⟨ofExisting.1, ?_⟩
    intro revision found
    rcases mem_addRevisions found with old | new
    · exact ofExisting.2 revision old
    · obtain ⟨source, present, ofKey, ofRepo, included⟩ := ofSession.2 revision new
      exact ⟨source, present, ofKey.trans sameKey.symm, ofRepo.trans sameRepo.symm, included⟩
  · intro session ofSession
    exact ⟨ofSession.1, fun revision found =>
      ofSession.2 revision (SessionRecord.mem_sorted.mp found)⟩

theorem mergeCatalogs_keys (accepted : mergeCatalogs base incoming = .ok merged)
    {key : SessionKey} : key ∈ merged.sessions.map (·.key) ↔
      key ∈ base.sessions.map (·.key) ∨ key ∈ incoming.sessions.map (·.key) := by
  simp only [List.mem_map]
  constructor
  · intro given
    obtain ⟨session, member, same⟩ := given
    obtain ⟨source, side, sameKey, _⟩ := (mergeCatalogs_origin accepted member).1
    rcases side with stored | submitted
    · exact .inl ⟨source, stored, sameKey.trans same⟩
    · exact .inr ⟨source, submitted, sameKey.trans same⟩
  · intro either
    rcases either with stored | submitted
    · obtain ⟨session, member, same⟩ := stored
      obtain ⟨later, present, continued⟩ := mergeCatalogs_continues accepted member
      exact ⟨later, present, continued.key.trans same⟩
    · obtain ⟨session, member, same⟩ := submitted
      obtain ⟨later, present, sameKey, _⟩ := mergeCatalogs_represents accepted member
      exact ⟨later, present, sameKey.trans same⟩

theorem mergeCatalogs_nonempty (accepted : mergeCatalogs base incoming = .ok merged)
    {session : SessionRecord} (member : session ∈ merged.sessions) :
    session.revisions ≠ [] := by
  obtain ⟨_, _, sessions, _, nonempty, rfl⟩ := mergeCatalogs_ok_iff.mp accepted
  obtain ⟨source, present, rfl⟩ := mem_merged_sessions.mp member
  exact fun empty => nonempty source present (SessionRecord.sorted_eq_nil.mp empty)

theorem mergeCatalogs_sorted (accepted : mergeCatalogs base incoming = .ok merged)
    (distinct : (base.sessions.map (·.key)).Nodup) :
    merged.sessions.Pairwise fun left right => left.sortKey < right.sortKey := by
  obtain ⟨_, _, sessions, folded, _, rfl⟩ := mergeCatalogs_ok_iff.mp accepted
  have unique : (sessions.map (·.key)).Nodup :=
    foldlM_ok_invariant folded (fun _ current => (current.map (·.key)).Nodup) distinct
      fun _ _ _ _ _ holds stepped => mergeSession_keys stepped holds
  rw [List.pairwise_map]
  exact sortSessions_strict unique

theorem keys_nodup_of_sorted {sessions : List SessionRecord}
    (ordered : sessions.Pairwise fun left right => left.sortKey < right.sortKey) :
    (sessions.map (·.key)).Nodup := by
  rw [List.Nodup, List.pairwise_map]
  exact ordered.imp fun before same => before.ne (sortKey_injective_iff.mpr same)

end Catalogs

end AgentTranscript
