import AgentTranscript.Catalog.Convergence
import AgentTranscript.Library.SortedMap

/-!
Merging as a join. A merge looks at nothing of a revision but its content hash,
so which sessions and hashes a catalog ends up with depends neither on how the
merges are ordered and grouped nor on catalogs that are merged more than once.
-/

set_option autoImplicit false

namespace AgentTranscript

universe u

/-- What a comparison of catalogs takes from a revision: at least its content hash. -/
structure RevisionView (γ : Type u) where
  of : Revision → γ
  hash : γ → String
  hash_of : ∀ revision, hash (of revision) = revision.contentHash

def RevisionView.hashes : RevisionView String where
  of := (·.contentHash)
  hash := id
  hash_of _ := rfl

def RevisionView.whole : RevisionView Revision where
  of := id
  hash := (·.contentHash)
  hash_of _ := rfl

section Lists

variable {γ : Type u} (view : RevisionView γ)

def Catalog.Lists (catalog : Catalog) (key : SessionKey) (repoKey : String) (value : γ) : Prop :=
  ∃ session ∈ catalog.sessions, session.key = key ∧ session.repoKey = repoKey ∧
    ∃ revision ∈ session.revisions, view.of revision = value

def SessionRecord.row (session : SessionRecord) : SessionKey × String × List γ :=
  (session.key, session.repoKey, session.revisions.map view.of)

def Catalog.shape (catalog : Catalog) : List (SessionKey × String × List γ) :=
  catalog.sessions.map (·.row view)

/-- Copies of one body, recorded for one session, look the same. -/
def Agree (catalogs : List Catalog) : Prop :=
  ∀ left ∈ catalogs, ∀ right ∈ catalogs, ∀ key leftRepo rightRepo one other,
    left.Lists view key leftRepo one → right.Lists view key rightRepo other →
    view.hash one = view.hash other → one = other

/-- Hashes that are equal look the same. -/
theorem Agree.hashes (catalogs : List Catalog) : Agree .hashes catalogs :=
  fun _ _ _ _ _ _ _ _ _ _ _ same => same

variable {view} in
theorem Agree.mono {catalogs others : List Catalog} (agree : Agree view catalogs)
    (among : others ⊆ catalogs) : Agree view others :=
  fun left leftIn right rightIn => agree left (among leftIn) right (among rightIn)

variable {view} in
theorem Agree.of_listed {catalogs sides : List Catalog} (agree : Agree view catalogs)
    (listed : ∀ side ∈ sides, ∀ key repoKey value, side.Lists view key repoKey value →
      ∃ catalog ∈ catalogs, catalog.Lists view key repoKey value) : Agree view sides := by
  intro left leftIn right rightIn key leftRepo rightRepo one other oneIn otherIn same
  obtain ⟨first, firstIn, oneListed⟩ := listed left leftIn key leftRepo one oneIn
  obtain ⟨second, secondIn, otherListed⟩ := listed right rightIn key rightRepo other otherIn
  exact agree first firstIn second secondIn key leftRepo rightRepo one other oneListed otherListed
    same

end Lists

section Sorted

variable [HarnessNames]

/-- A catalog as `merge_catalogs` returns it. -/
structure Sorted (catalog : Catalog) : Prop extends WellFormed catalog where
  ordered : ∀ session ∈ catalog.sessions,
    session.revisions.Pairwise fun left right => left.contentHash < right.contentHash

theorem Canonical.toSorted {catalog : Catalog} (canonical : Canonical catalog) : Sorted catalog :=
  ⟨canonical.toWellFormed, canonical.ordered⟩

theorem Sorted.merge {base incoming merged : Catalog} (stored : WellFormed base)
    (submitted : WellFormed incoming) (accepted : mergeCatalogs base incoming = .ok merged) :
    Sorted merged :=
  ⟨stored.merge submitted accepted, fun _ member =>
    mergeCatalogs_ordered stored submitted accepted member⟩

variable {γ : Type u} {view : RevisionView γ} {left right : Catalog}

theorem Sorted.row_ordered (sorted : Sorted left) {session : SessionRecord}
    (member : session ∈ left.sessions) :
    (session.revisions.map view.of).Pairwise fun one other => view.hash one < view.hash other := by
  rw [List.pairwise_map]
  simp only [view.hash_of]
  exact sorted.ordered session member

theorem Sorted.lists_iff (sorted : Sorted left) {session : SessionRecord}
    (member : session ∈ left.sessions) {value : γ} :
    left.Lists view session.key session.repoKey value ↔
      value ∈ session.revisions.map view.of := by
  rw [List.mem_map]
  constructor
  · intro listed
    obtain ⟨other, present, sameKey, -, revision, found, same⟩ := listed
    have one : other = session :=
      List.inj_on_of_nodup_map (keys_nodup_of_sorted sorted.sorted) present member sameKey
    exact ⟨revision, one ▸ found, same⟩
  · intro found
    obtain ⟨revision, among, same⟩ := found
    exact ⟨session, member, rfl, rfl, revision, among, same⟩

theorem Sorted.row_mem (sorted : Sorted left) (other : Sorted right)
    (same : ∀ key repoKey value, left.Lists view key repoKey value ↔
      right.Lists view key repoKey value) {session : SessionRecord}
    (member : session ∈ left.sessions) : session.row view ∈ right.shape view := by
  obtain ⟨revision, found⟩ := List.exists_mem_of_ne_nil _ (sorted.nonempty session member)
  have listed : left.Lists view session.key session.repoKey (view.of revision) :=
    ⟨session, member, rfl, rfl, revision, found, rfl⟩
  obtain ⟨partner, present, sameKey, sameRepo, -⟩ := (same _ _ _).mp listed
  have revisions : partner.revisions.map view.of = session.revisions.map view.of := by
    apply eq_of_ordered_keys (other.row_ordered present)
      (sorted.row_ordered member)
    intro value
    rw [← sorted.lists_iff member, same, ← sameKey, ← sameRepo, other.lists_iff present]
  refine List.mem_map.mpr ⟨partner, present, ?_⟩
  rw [SessionRecord.row, SessionRecord.row, sameKey, sameRepo, revisions]

/-- A sorted catalog is what it lists. -/
theorem Sorted.shape_eq (sorted : Sorted left) (other : Sorted right)
    (same : ∀ key repoKey value, left.Lists view key repoKey value ↔
      right.Lists view key repoKey value) : left.shape view = right.shape view := by
  let sortKey : SessionKey × String × List γ → String ×ₗ String := fun row =>
    toLex (HarnessNames.asStr row.1.1, row.1.2)
  have ordered : ∀ {catalog : Catalog}, Sorted catalog →
      (catalog.shape view).Pairwise fun one two => sortKey one < sortKey two :=
    fun kept => List.pairwise_map.mpr kept.sorted
  apply eq_of_ordered_keys (ordered sorted) (ordered other)
  intro row
  constructor
  · intro member
    obtain ⟨session, present, rfl⟩ := List.mem_map.mp member
    exact sorted.row_mem other same present
  · intro member
    obtain ⟨session, present, rfl⟩ := List.mem_map.mp member
    exact other.row_mem sorted (fun key repoKey value => (same key repoKey value).symm) present

theorem mergeCatalogs_lists {merged : Catalog} (agree : Agree view [left, right])
    (accepted : mergeCatalogs left right = .ok merged) {key : SessionKey} {repoKey : String}
    {value : γ} : merged.Lists view key repoKey value ↔
      left.Lists view key repoKey value ∨ right.Lists view key repoKey value := by
  have origin : ∀ {value : γ}, merged.Lists view key repoKey value →
      left.Lists view key repoKey value ∨ right.Lists view key repoKey value := by
    intro value listed
    obtain ⟨session, member, rfl, rfl, revision, found, same⟩ := listed
    obtain ⟨source, side, sameKey, sameRepo, among⟩ :=
      (mergeCatalogs_origin accepted member).2 revision found
    exact side.imp (fun stored => ⟨source, stored, sameKey, sameRepo, revision, among, same⟩)
      fun submitted => ⟨source, submitted, sameKey, sameRepo, revision, among, same⟩
  constructor
  · exact origin
  · intro either
    rcases either with stored | submitted
    · obtain ⟨session, member, rfl, rfl, revision, found, same⟩ := stored
      obtain ⟨later, present, continued⟩ := mergeCatalogs_continues accepted member
      exact ⟨later, present, continued.key, continued.repoKey, revision,
        continued.revisions found, same⟩
    · obtain ⟨session, member, rfl, rfl, revision, found, rfl⟩ := submitted
      obtain ⟨later, present, sameKey, sameRepo, covered⟩ :=
        mergeCatalogs_represents accepted member
      obtain ⟨copy, copyIn, sameHash⟩ := covered revision found
      have listed : merged.Lists view session.key session.repoKey (view.of copy) :=
        ⟨later, present, sameKey, sameRepo, copy, copyIn, rfl⟩
      have ours : right.Lists view session.key session.repoKey (view.of revision) :=
        ⟨session, member, rfl, rfl, revision, found, rfl⟩
      have hashes : view.hash (view.of copy) = view.hash (view.of revision) := by
        rw [view.hash_of, view.hash_of, sameHash]
      -- The copy that stands for the submitted revision looks like it on either side.
      have alike : view.of copy = view.of revision := by
        rcases origin listed with stored | submitted
        · exact agree left (by simp) right (by simp) _ _ _ _ _ stored ours hashes
        · exact agree right (by simp) right (by simp) _ _ _ _ _ submitted ours hashes
      exact alike ▸ listed

end Sorted

/-- Catalogs on their way into one: each is merged with others, or into them. -/
inductive MergePlan where
  | single (catalog : Catalog)
  | merge (base incoming : MergePlan)

def MergePlan.catalogs : MergePlan → List Catalog
  | .single catalog => [catalog]
  | .merge base incoming => base.catalogs ++ incoming.catalogs

section Plan

variable [HarnessNames]

def MergePlan.run : MergePlan → Except Error Catalog
  | .single catalog => .ok catalog
  | .merge base incoming => do
      let stored ← base.run
      let submitted ← incoming.run
      mergeCatalogs stored submitted

/-- Sorted catalogs that agree on the repository of each session. -/
structure Mergeable (repoOf : SessionKey → String) (catalog : Catalog) : Prop extends
    Sorted catalog where
  repoKey : ∀ session ∈ catalog.sessions, session.repoKey = repoOf session.key

variable {γ : Type u} {view : RevisionView γ} {repoOf : SessionKey → String}
  {base incoming : Catalog}

theorem Mergeable.merge (stored : Mergeable repoOf base) (submitted : Mergeable repoOf incoming) :
    ∃ merged, mergeCatalogs base incoming = .ok merged ∧ Mergeable repoOf merged := by
  obtain ⟨merged, accepted⟩ := mergeCatalogs_total stored.schema submitted.schema stored.nonempty
    submitted.nonempty stored.repoKey submitted.repoKey
  refine ⟨merged, accepted, Sorted.merge stored.toWellFormed submitted.toWellFormed accepted, ?_⟩
  intro session member
  obtain ⟨source, side, sameKey, sameRepo⟩ := (mergeCatalogs_origin accepted member).1
  rw [← sameRepo, ← sameKey]
  rcases side with present | present
  · exact stored.repoKey source present
  · exact submitted.repoKey source present

/-- A plan over mergeable catalogs succeeds, and lists what they list. -/
theorem MergePlan.run_ok {plan : MergePlan}
    (mergeable : ∀ catalog ∈ plan.catalogs, Mergeable repoOf catalog) :
    ∃ merged, plan.run = .ok merged ∧ Mergeable repoOf merged := by
  induction plan with
  | single catalog => exact ⟨catalog, rfl, mergeable catalog (by simp [catalogs])⟩
  | merge base incoming ihBase ihIncoming =>
      obtain ⟨stored, ranBase, storedMergeable⟩ := ihBase fun catalog member =>
        mergeable catalog (List.mem_append_left _ member)
      obtain ⟨submitted, ranIncoming, submittedMergeable⟩ := ihIncoming fun catalog member =>
        mergeable catalog (List.mem_append_right _ member)
      obtain ⟨merged, accepted, kept⟩ := storedMergeable.merge submittedMergeable
      exact ⟨merged, by simp only [run, ranBase, ranIncoming, Loop.ok_bind, accepted], kept⟩

theorem MergePlan.run_lists {plan : MergePlan} (agree : Agree view plan.catalogs)
    {merged : Catalog} (ran : plan.run = .ok merged) (key : SessionKey) (repoKey : String)
    (value : γ) : merged.Lists view key repoKey value ↔
      ∃ catalog ∈ plan.catalogs, catalog.Lists view key repoKey value := by
  induction plan generalizing merged key repoKey value with
  | single catalog =>
      cases ran
      simp [catalogs]
  | merge base incoming ihBase ihIncoming =>
      obtain ⟨stored, ranBase, rest⟩ := Loop.bind_ok ran
      obtain ⟨submitted, ranIncoming, accepted⟩ := Loop.bind_ok rest
      have fromBase := ihBase (agree.mono (List.subset_append_left _ _)) ranBase
      have fromIncoming := ihIncoming (agree.mono (List.subset_append_right _ _)) ranIncoming
      have together : Agree view [stored, submitted] := by
        apply agree.of_listed
        intro side member key repoKey value listed
        rcases List.mem_pair.mp member with rfl | rfl
        · obtain ⟨catalog, among, found⟩ := (fromBase key repoKey value).mp listed
          exact ⟨catalog, List.mem_append_left _ among, found⟩
        · obtain ⟨catalog, among, found⟩ := (fromIncoming key repoKey value).mp listed
          exact ⟨catalog, List.mem_append_right _ among, found⟩
      rw [mergeCatalogs_lists together accepted, fromBase, fromIncoming, catalogs]
      simp only [List.mem_append, or_and_right, exists_or]

/-- Two plans over the same catalogs, in any order, grouping and number, give the
same sessions with the same content hashes; and the same catalog when copies of one
body carry the same metadata. -/
theorem mergePlans_agree {left right : MergePlan}
    (mergeable : ∀ catalog ∈ left.catalogs, Mergeable repoOf catalog)
    (same : ∀ catalog, catalog ∈ left.catalogs ↔ catalog ∈ right.catalogs) :
    ∃ one other, left.run = .ok one ∧ right.run = .ok other ∧
      one.shape .hashes = other.shape .hashes ∧
      (Agree .whole left.catalogs → one = other) := by
  obtain ⟨one, ranLeft, oneMergeable⟩ := MergePlan.run_ok mergeable
  have mergeableRight : ∀ catalog ∈ right.catalogs, Mergeable repoOf catalog := by
    intro catalog member
    exact mergeable catalog ((same catalog).mpr member)
  obtain ⟨other, ranRight, otherMergeable⟩ := MergePlan.run_ok mergeableRight
  have shapes : ∀ {γ : Type} (view : RevisionView γ), Agree view left.catalogs →
      one.shape view = other.shape view := by
    intro γ view agree
    have reordered : Agree view right.catalogs :=
      agree.mono fun catalog member => (same catalog).mpr member
    apply oneMergeable.toSorted.shape_eq otherMergeable.toSorted
    intro key repoKey value
    rw [MergePlan.run_lists agree ranLeft, MergePlan.run_lists reordered ranRight]
    simp only [same]
  refine ⟨one, other, ranLeft, ranRight, shapes .hashes (Agree.hashes _), ?_⟩
  intro agree
  have sessions : one.sessions = other.sessions := by
    apply List.map_injective_iff.mpr _ (shapes .whole agree)
    intro first second equal
    simp only [SessionRecord.row, RevisionView.whole, List.map_id, Prod.mk.injEq,
      SessionRecord.key] at equal
    obtain ⟨⟨harness, sessionId⟩, repoKey, revisions⟩ := equal
    cases first
    cases second
    exact SessionRecord.mk.injEq .. |>.mpr ⟨repoKey, harness, sessionId, revisions⟩
  have schema : one.schema = other.schema :=
    oneMergeable.schema.trans otherMergeable.schema.symm
  exact congrArg₂ Catalog.mk schema sessions

end Plan

section Example

attribute [local instance] HarnessNames.snakeCase

theorem submission_mergeable {contentHash : String} {updatedAt : DateTime}
    (hex : objectKey contentHash = .ok (Revision.bare contentHash updatedAt).objectKey) :
    Mergeable (fun _ => "repo") (submission contentHash updatedAt) where
  schema := rfl
  sorted := List.pairwise_singleton _ _
  nonempty := by simp [submission, Catalog.piece]
  distinct := by simp [submission, Catalog.piece]
  stored := by
    intro session member revision found
    obtain rfl := List.mem_singleton.mp member
    obtain rfl := List.mem_singleton.mp found
    exact hex
  ordered := by simp [submission, Catalog.piece]
  repoKey := by simp [submission, Catalog.piece]

def oncePlan : MergePlan :=
  .merge (.single (submission "bbb" 2)) (.single (submission "aaa" 1))

def twicePlan : MergePlan :=
  .merge (.single (submission "aaa" 1)) (.merge (.single (submission "bbb" 2))
    (.single (submission "aaa" 1)))

theorem mergePlans_agree_twice : ∃ one other, twicePlan.run = .ok one ∧ oncePlan.run = .ok other ∧
    one.shape .hashes = other.shape .hashes ∧
    (Agree .whole twicePlan.catalogs → one = other) := by
  have mergeable : ∀ catalog ∈ twicePlan.catalogs, Mergeable (fun _ => "repo") catalog := by
    intro catalog member
    simp only [twicePlan, MergePlan.catalogs, List.mem_append, List.mem_singleton] at member
    rcases member with rfl | rfl | rfl <;> exact submission_mergeable (by decide)
  refine mergePlans_agree mergeable ?_
  intro catalog
  simp only [twicePlan, oncePlan, MergePlan.catalogs, List.mem_append, List.mem_singleton]
  tauto

end Example

end AgentTranscript
