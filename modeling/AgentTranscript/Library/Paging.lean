import Mathlib.Data.Finset.Card
import Mathlib.Data.List.Sort
import Mathlib.Order.Basic
import AgentTranscript.Library.SortedMap

/-!
Reading a sorted collection page by page, while it changes. Every page goes on behind
the last item of the one before it.
-/

set_option autoImplicit false

namespace Paging

section Definitions

variable {α κ : Type*} [LinearOrder κ]

def Behind (after : Option κ) (place : κ) : Prop :=
  ∀ last ∈ after, last < place

instance (after : Option κ) (place : κ) : Decidable (Behind after place) :=
  inferInstanceAs (Decidable (∀ last ∈ after, last < place))

def remaining (key : α → κ) (items : List α) (after : Option κ) : List α :=
  items.filter fun item => Behind after (key item)

/-- The pages of a number of turns put together; `none` if there are more. -/
def scan (key : α → κ) (contents : Nat → List α) (size : Nat → Nat) :
    Nat → Nat → Option κ → Option (List α)
  | 0, _, _ => none
  | fuel + 1, turn, after =>
      let rest := remaining key (contents turn) after
      let page := rest.take (size turn)
      if size turn < rest.length then
        (scan key contents size fuel (turn + 1) (page.getLast?.map key)).map (page ++ ·)
      else some page

end Definitions

section Turn

variable {α κ : Type*} [LinearOrder κ] {key : α → κ} {contents : Nat → List α}
  {size : Nat → Nat} {fuel turn : Nat} {after : Option κ} {result items : List α} {place : κ}

theorem behind_none (place : κ) : Behind none place := by
  simp [Behind]

theorem behind_some {last : κ} : Behind (some last) place ↔ last < place := by
  simp [Behind]

theorem Behind.mono {last : κ} (first : Behind after last) (later : Behind (some last) place) :
    Behind after place := by
  intro bound member
  exact (first bound member).trans (behind_some.mp later)

theorem mem_remaining {item : α} : item ∈ remaining key items after ↔
    item ∈ items ∧ Behind after (key item) := by
  simp [remaining]

theorem take_filled {count : Nat} (positive : 0 < count) (more : count < items.length) :
    items.take count ≠ [] := by
  rw [← List.length_pos_iff, List.length_take]
  omega

/-- A turn either ends the scan with all that remains, or goes on behind its last item. -/
theorem scan_cases (positive : 0 < size turn)
    (scanned : scan key contents size (fuel + 1) turn after = some result) :
    result = remaining key (contents turn) after ∨
      ∃ front last back tail, remaining key (contents turn) after = front ++ last :: back ∧
        scan key contents size fuel (turn + 1) (some (key last)) = some tail ∧
        result = front ++ last :: tail := by
  unfold scan at scanned
  dsimp only at scanned
  split at scanned
  · rename_i more
    obtain ⟨tail, later, rfl⟩ := Option.map_eq_some_iff.mp scanned
    obtain ⟨front, last, page⟩ :=
      (List.eq_nil_or_concat _).resolve_left (take_filled positive more)
    rw [List.concat_eq_append] at page
    refine .inr ⟨front, last, (remaining key (contents turn) after).drop (size turn), tail, ?_, ?_, ?_⟩
    · have whole := List.take_append_drop (size turn) (remaining key (contents turn) after)
      rw [page, List.append_assoc] at whole
      exact whole.symm
    · rw [page] at later
      simpa using later
    · rw [page, List.append_assoc]
      rfl
  · rename_i all
    have whole := List.take_of_length_le (not_lt.mp all)
    exact .inl ((Option.some.inj scanned).symm.trans whole)

end Turn

section Runs

variable {α κ : Type*} [LinearOrder κ] {key : α → κ} {contents : Nat → List α}
  {size : Nat → Nat} {fuel turn : Nat} {after : Option κ} {result : List α} {place : κ}

theorem remaining_sorted {items : List α} (sorted : items.Pairwise (key · < key ·)) :
    (remaining key items after).Pairwise (key · < key ·) :=
  sorted.sublist List.filter_sublist

variable (positive : ∀ turn, 0 < size turn)

include positive in
theorem scan_behind (scanned : scan key contents size fuel turn after = some result) :
    ∀ item ∈ result, Behind after (key item) := by
  induction fuel generalizing turn after result with
  | zero => cases scanned
  | succ fuel ih =>
      intro item member
      rcases scan_cases (positive turn) scanned with rfl | page
      · exact (mem_remaining.mp member).2
      · obtain ⟨front, last, back, tail, split, later, rfl⟩ := page
        have here : ∀ other ∈ front ++ last :: back, Behind after (key other) := by
          intro other among
          rw [← split] at among
          exact (mem_remaining.mp among).2
        rcases List.mem_append.mp member with early | late
        · exact here item (List.mem_append_left _ early)
        · rcases List.mem_cons.mp late with rfl | after
          · exact here item (by simp)
          · exact (here last (by simp)).mono (ih later item after)

include positive in
/-- Nothing is read twice, whatever moves between two turns. -/
theorem scan_sorted (sorted : ∀ turn, (contents turn).Pairwise (key · < key ·))
    (scanned : scan key contents size fuel turn after = some result) :
    result.Pairwise (key · < key ·) := by
  induction fuel generalizing turn after result with
  | zero => cases scanned
  | succ fuel ih =>
      have ordered := @remaining_sorted _ _ _ key after _ (sorted turn)
      rcases scan_cases (positive turn) scanned with rfl | page
      · exact ordered
      · obtain ⟨front, last, back, tail, split, later, rfl⟩ := page
        rw [split] at ordered
        obtain ⟨fronts, -, across⟩ := List.pairwise_append.mp ordered
        have behind : ∀ item ∈ tail, key last < key item := by
          intro item member
          exact behind_some.mp (scan_behind positive later item member)
        refine List.pairwise_append.mpr ⟨fronts, ?_, ?_⟩
        · exact List.pairwise_cons.mpr ⟨behind, ih later⟩
        · intro item early other late
          have before : key item < key last := across item early last List.mem_cons_self
          rcases List.mem_cons.mp late with rfl | after
          · exact before
          · exact before.trans (behind other after)

include positive in
theorem scan_sound (scanned : scan key contents size fuel turn after = some result) :
    ∀ item ∈ result, ∃ later < turn + fuel, item ∈ contents later := by
  induction fuel generalizing turn after result with
  | zero => cases scanned
  | succ fuel ih =>
      have now : ∀ item ∈ remaining key (contents turn) after,
          ∃ later < turn + (fuel + 1), item ∈ contents later := by
        intro item member
        exact ⟨turn, by omega, (mem_remaining.mp member).1⟩
      rcases scan_cases (positive turn) scanned with rfl | page
      · exact now
      · obtain ⟨front, last, back, tail, split, later, rfl⟩ := page
        rw [split] at now
        intro item member
        rcases List.mem_append.mp member with early | late
        · exact now item (List.mem_append_left _ early)
        · rcases List.mem_cons.mp late with rfl | after
          · exact now item (by simp)
          · obtain ⟨when, bound, present⟩ := ih later item after
            exact ⟨when, by omega, present⟩

include positive in
/-- What is there at every turn is read. -/
theorem scan_complete (sorted : ∀ turn, (contents turn).Pairwise (key · < key ·))
    (scanned : scan key contents size fuel turn after = some result)
    (behind : Behind after place)
    (stays : ∀ later, turn ≤ later → later < turn + fuel → ∃ item ∈ contents later, key item = place) :
    ∃ item ∈ result, key item = place := by
  induction fuel generalizing turn after result with
  | zero => cases scanned
  | succ fuel ih =>
      obtain ⟨item, present, rfl⟩ := stays turn le_rfl (by omega)
      have left : item ∈ remaining key (contents turn) after := mem_remaining.mpr ⟨present, behind⟩
      rcases scan_cases (positive turn) scanned with rfl | page
      · exact ⟨item, left, rfl⟩
      · obtain ⟨front, last, back, tail, split, later, rfl⟩ := page
        have ordered := @remaining_sorted _ _ _ key after _ (sorted turn)
        rw [split] at left ordered
        have beyond := (List.pairwise_cons.mp (List.pairwise_append.mp ordered).2.1).1
        rcases List.mem_append.mp left with early | late
        · exact ⟨item, List.mem_append_left _ early, rfl⟩
        · rcases List.mem_cons.mp late with rfl | next
          · exact ⟨item, by simp, rfl⟩
          · obtain ⟨found, among, same⟩ := ih later (behind_some.mpr (beyond item next))
              fun when started bound => stays when (by omega) (by omega)
            exact ⟨found, by simp [among], same⟩

include positive in
/-- A collection that does not change is read as it is. -/
theorem scan_exact (sorted : ∀ turn, (contents turn).Pairwise (key · < key ·))
    (scanned : scan key contents size fuel 0 none = some result)
    (still : ∀ later < fuel, contents later = contents 0) : result = contents 0 := by
  have sound : ∀ item ∈ result, item ∈ contents 0 := by
    intro item member
    obtain ⟨later, bound, present⟩ := scan_sound positive scanned item member
    exact still later (by omega) ▸ present
  have distinct : ((contents 0).map key).Nodup :=
    List.pairwise_map.mpr ((sorted 0).imp fun below => below.ne)
  refine eq_of_ordered_keys (scan_sorted positive sorted scanned) (sorted 0) ?_
  intro item
  refine ⟨sound item, ?_⟩
  intro present
  have stays : ∀ later, 0 ≤ later → later < 0 + fuel →
      ∃ other ∈ contents later, key other = key item := by
    intro later _ bound
    exact ⟨item, still later (by omega) ▸ present, rfl⟩
  obtain ⟨other, among, same⟩ :=
    scan_complete positive sorted scanned (behind_none (key item)) stays
  exact List.inj_on_of_nodup_map distinct (sound other among) present same ▸ among

/-- A scan of a collection whose items come from a finite number of places ends. -/
theorem scan_total (positive : ∀ turn, 0 < size turn) {places : Finset κ}
    (held : ∀ turn, ∀ item ∈ contents turn, key item ∈ places) {fuel turn : Nat} {after : Option κ}
    (enough : (places.filter fun place => Behind after place).card < fuel) :
    ∃ result, scan key contents size fuel turn after = some result := by
  induction fuel generalizing turn after with
  | zero => exact absurd enough (Nat.not_lt_zero _)
  | succ fuel ih =>
      unfold scan
      dsimp only
      split
      · rename_i more
        have filled := List.getLast?_isSome.mpr (take_filled (positive turn) more)
        obtain ⟨last, final⟩ := Option.isSome_iff_exists.mp filled
        have read := mem_remaining.mp (List.mem_of_mem_take (List.mem_of_getLast? final))
        have fewer : (places.filter fun place => Behind (some (key last)) place) ⊂
            places.filter fun place => Behind after place := by
          refine Finset.ssubset_iff_of_subset ?_ |>.mpr ⟨key last, ?_, ?_⟩
          · intro place member
            rw [Finset.mem_filter] at member ⊢
            exact ⟨member.1, read.2.mono member.2⟩
          · exact Finset.mem_filter.mpr ⟨held turn last read.1, read.2⟩
          · intro member
            exact lt_irrefl _ (behind_some.mp (Finset.mem_filter.mp member).2)
        obtain ⟨tail, later⟩ := @ih (turn + 1) (some (key last))
          (lt_of_lt_of_le (Finset.card_lt_card fewer) (Nat.lt_succ_iff.mp enough))
        rw [final, Option.map_some, later]
        exact ⟨_, rfl⟩
      · exact ⟨_, rfl⟩

end Runs

end Paging
