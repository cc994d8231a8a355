import AgentTranscript.Catalog.Basic
import AgentTranscript.Merge.RankProperties

/-!
Which snapshot is current, in terms of positions: the first of greatest rank, whatever
the order in which the snapshots are listed.
-/

set_option autoImplicit false

namespace AgentTranscript

open Ranking

variable {items permuted : List Freshness}

/-- Two snapshots share the greatest rank with different bodies. -/
def Torn (items : List Freshness) : Prop :=
  ∃ one ∈ items, ∃ other ∈ items, (∀ item ∈ items, item.rankKey ≤ one.rankKey) ∧
    (∀ item ∈ items, item.rankKey ≤ other.rankKey) ∧ one.contentHash ≠ other.contentHash

theorem torn_iff : Torn items ↔ (topHashes items).Nontrivial := by
  constructor
  · intro given
    obtain ⟨one, member, other, also, above, greatest, different⟩ := given
    exact ⟨_, ⟨one, ⟨member, above⟩, rfl⟩, _, ⟨other, ⟨also, greatest⟩, rfl⟩, different⟩
  · intro given
    obtain ⟨_, ⟨one, ⟨member, above⟩, rfl⟩, _, ⟨other, ⟨also, greatest⟩, rfl⟩, different⟩ := given
    exact ⟨one, member, other, also, above, greatest, different⟩

/-- The answer, with the snapshot it points at. -/
theorem chooseCurrent_answer (nonempty : items ≠ []) :
    ∃ current item, chooseCurrent items = .ok current ∧
      IsFirstTopAt Freshness.rankKey items current.position item ∧
      ((∃ display, current = .ambiguous display) ↔ Torn items) := by
  obtain ⟨position, item, first, ⟨answer, only⟩ | ⟨answer, several⟩⟩ :=
    chooseCurrent_spec nonempty
  · refine ⟨.index position, item, answer, first, ?_⟩
    constructor
    · intro given
      obtain ⟨display, wrong⟩ := given
      cases wrong
    · intro torn
      exact absurd (only ▸ torn_iff.mp torn) Set.not_nontrivial_singleton
  · refine ⟨.ambiguous position, item, answer, first, ?_⟩
    exact ⟨fun _ => torn_iff.mpr several, fun _ => ⟨position, rfl⟩⟩

theorem verdict_perm (reordered : items.Perm permuted) : verdict permuted = verdict items :=
  verdict_eq_of_topHashes (topBodies_perm reordered.symm)

/-- `choose_current` answers the first snapshot of greatest rank, or that two bodies share
that rank, and the order of the list does not matter to what it answers. -/
theorem chooseCurrent_first_greatest (nonempty : items ≠ []) :
    (∀ left right, rank left right =
      if right.rankKey < left.rankKey then .left
      else if left.rankKey < right.rankKey then .right
      else if left.contentHash = right.contentHash then .same
      else .ambiguous) ∧
    ∃ current item, chooseCurrent items = .ok current ∧ items[current.position]? = some item ∧
      (∀ other ∈ items, other.rankKey ≤ item.rankKey) ∧
      (∀ earlier < current.position, ∀ other, items[earlier]? = some other →
        other.rankKey < item.rankKey) ∧
      ((∃ display, current = .ambiguous display) ↔ Torn items) ∧
      ∀ permuted, items.Perm permuted → verdict permuted = verdict items ∧
        ∃ again twin, chooseCurrent permuted = .ok again ∧
          permuted[again.position]? = some twin ∧ twin.rankKey = item.rankKey := by
  refine ⟨rank_eq, ?_⟩
  obtain ⟨current, item, answer, first, ambiguity⟩ := chooseCurrent_answer nonempty
  refine ⟨current, item, answer, first.getElem?, first.isFirstTop.isTopOf.2, ?_, ambiguity, ?_⟩
  · intro earlier before other found
    obtain ⟨front, back, rfl, length, below, -⟩ := first
    rw [← length] at before
    rw [List.getElem?_append_left before] at found
    exact below other (List.mem_of_getElem? found)
  · intro permuted reordered
    have occupied : permuted ≠ [] := by
      rintro rfl
      exact nonempty reordered.eq_nil
    obtain ⟨again, twin, second, firstAgain, -⟩ := chooseCurrent_answer occupied
    refine ⟨verdict_perm reordered, again, twin, second, firstAgain.getElem?, ?_⟩
    have top : IsTopOf Freshness.rankKey items twin :=
      (isTopOf_congr fun _ => reordered.mem_iff).mpr firstAgain.isFirstTop.isTopOf
    exact top.key_eq first.isFirstTop.isTopOf

/-- A long old body, and two newer ones of the same time and length. -/
def threeRevisions : List Freshness :=
  [⟨some 1, none, 9, "a"⟩, ⟨none, some 2, 1, "b"⟩, ⟨some 2, none, 1, "c"⟩]

theorem threeRevisions_torn : chooseCurrent threeRevisions = .ok (.ambiguous 1) ∧
    Torn threeRevisions := by
  have run : chooseCurrent threeRevisions = .ok (.ambiguous 1) := by decide
  obtain ⟨-, current, item, answer, found, -, -, ambiguity, -⟩ :=
    @chooseCurrent_first_greatest threeRevisions (by simp [threeRevisions])
  rw [run] at answer
  cases answer
  exact ⟨run, ambiguity.mp ⟨1, rfl⟩⟩

end AgentTranscript
