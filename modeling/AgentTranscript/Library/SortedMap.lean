import Mathlib

/-! Maps as lists of entries in strictly increasing order of their keys. -/

set_option autoImplicit false

universe u v

/-- A list in strictly increasing order of a key is determined by its members. -/
theorem eq_of_ordered_keys {α : Type u} {κ : Type v} [Preorder κ] {key : α → κ}
    {left right : List α} (ordered : left.Pairwise fun one other => key one < key other)
    (reordered : right.Pairwise fun one other => key one < key other)
    (same : ∀ item, item ∈ left ↔ item ∈ right) : left = right := by
  have irrefl : Std.Irrefl fun one other : α => key one < key other := ⟨fun _ => lt_irrefl _⟩
  have antisymm : Std.Antisymm fun one other : α => key one < key other :=
    ⟨fun _ _ below above => absurd below above.asymm⟩
  exact ordered.eq_of_mem_iff reordered same

structure SortedMap (κ : Type u) (ν : Type v) [LinearOrder κ] where
  entries : List (κ × ν)
  sorted : entries.Pairwise fun left right => left.1 < right.1

namespace SortedMap

variable {κ : Type u} {ν : Type v} [LinearOrder κ]

def empty : SortedMap κ ν where
  entries := []
  sorted := .nil

def insertEntry (key : κ) (value : ν) : List (κ × ν) → List (κ × ν)
  | [] => [(key, value)]
  | entry :: rest =>
      if key < entry.1 then (key, value) :: entry :: rest
      else if key = entry.1 then (key, value) :: rest
      else entry :: insertEntry key value rest

theorem mem_insertEntry {key : κ} {value : ν} {entries : List (κ × ν)} {entry : κ × ν}
    (member : entry ∈ insertEntry key value entries) : entry = (key, value) ∨ entry ∈ entries := by
  induction entries with
  | nil => exact .inl (List.mem_singleton.mp member)
  | cons head tail ih =>
      unfold insertEntry at member
      split at member
      · exact List.mem_cons.mp member
      · split at member
        · exact (List.mem_cons.mp member).imp_right (List.mem_cons_of_mem head)
        · rcases List.mem_cons.mp member with first | later
          · exact .inr (first ▸ List.mem_cons_self)
          · exact (ih later).imp_right (List.mem_cons_of_mem head)

theorem insertEntry_sorted (key : κ) (value : ν) {entries : List (κ × ν)}
    (sorted : entries.Pairwise fun left right => left.1 < right.1) :
    (insertEntry key value entries).Pairwise fun left right => left.1 < right.1 := by
  induction entries with
  | nil => exact List.pairwise_singleton _ _
  | cons head tail ih =>
      obtain ⟨above, ordered⟩ := List.pairwise_cons.mp sorted
      unfold insertEntry
      split
      · rename_i below
        apply List.pairwise_cons.mpr ⟨?_, sorted⟩
        intro entry member
        rcases List.mem_cons.mp member with first | later
        · exact first ▸ below
        · exact below.trans (above entry later)
      · rename_i notBelow
        split
        · rename_i same
          exact List.pairwise_cons.mpr ⟨fun entry member => same ▸ above entry member, ordered⟩
        · rename_i different
          apply List.pairwise_cons.mpr ⟨?_, ih ordered⟩
          intro entry member
          rcases mem_insertEntry member with new | old
          · exact new ▸ lt_of_le_of_ne (not_lt.mp notBelow) (Ne.symm different)
          · exact above entry old

def insert (map : SortedMap κ ν) (key : κ) (value : ν) : SortedMap κ ν where
  entries := insertEntry key value map.entries
  sorted := insertEntry_sorted key value map.sorted

def get? (map : SortedMap κ ν) (key : κ) : Option ν :=
  (map.entries.find? fun entry => entry.1 = key).map (·.2)

def retain (map : SortedMap κ ν) (keep : κ → ν → Bool) : SortedMap κ ν where
  entries := map.entries.filter fun entry => keep entry.1 entry.2
  sorted := map.sorted.filter _

def values (map : SortedMap κ ν) : List ν :=
  map.entries.map (·.2)

theorem keys_nodup (map : SortedMap κ ν) : (map.entries.map (·.1)).Nodup :=
  (List.pairwise_map.mpr map.sorted).imp fun below => below.ne

theorem get?_eq_some_iff {map : SortedMap κ ν} {key : κ} {value : ν} :
    map.get? key = some value ↔ (key, value) ∈ map.entries := by
  constructor
  · intro found
    obtain ⟨entry, first, rfl⟩ := Option.map_eq_some_iff.mp found
    have same : entry.1 = key := by simpa using List.find?_some first
    exact same ▸ List.mem_of_find?_eq_some first
  · intro member
    cases first : map.entries.find? fun entry => entry.1 = key with
    | none => exact absurd (List.find?_eq_none.mp first (key, value) member) (by simp)
    | some entry =>
        have same : entry.1 = key := by simpa using List.find?_some first
        have only : entry = (key, value) := List.inj_on_of_nodup_map map.keys_nodup
          (List.mem_of_find?_eq_some first) member same
        rw [get?, first, only, Option.map_some]

theorem get?_insert (map : SortedMap κ ν) (key other : κ) (value : ν) :
    (map.insert key value).get? other = if other = key then some value else map.get? other := by
  have scan : ∀ entries : List (κ × ν),
      ((insertEntry key value entries).find? fun entry => entry.1 = other).map (·.2) =
        if other = key then some value else (entries.find? fun entry => entry.1 = other).map (·.2) := by
    intro entries
    induction entries with
    | nil => by_cases same : other = key <;> simp [insertEntry, same, Ne.symm]
    | cons head tail ih =>
        unfold insertEntry
        split
        · by_cases same : key = other <;> simp [same, eq_comm (a := other)]
        · split
          · rename_i replaced
            by_cases same : key = other <;> simp [same, ← replaced, eq_comm (a := other)]
          · rename_i different
            by_cases same : head.1 = other
            · have apart : other ≠ key := fun equal => different (equal ▸ same.symm)
              simp [same, apart]
            · simp [same, ih]
  exact scan map.entries

theorem get?_retain (map : SortedMap κ ν) (keep : κ → ν → Bool) (key : κ) :
    (map.retain keep).get? key = (map.get? key).filter (keep key) := by
  apply Option.ext
  intro value
  rw [get?_eq_some_iff, Option.filter_eq_some_iff, get?_eq_some_iff]
  simp [retain]

theorem mem_values {map : SortedMap κ ν} {value : ν} :
    value ∈ map.values ↔ ∃ key, map.get? key = some value := by
  simp only [get?_eq_some_iff, values, List.mem_map, Prod.exists, exists_eq_right]

/-- The values that only one key can have are the value of that key. -/
theorem filter_values {map : SortedMap κ ν} {key : κ} {value : ν} {test : ν → Bool}
    (found : map.get? key = some value) (passes : test value = true)
    (only : ∀ entry ∈ map.entries, test entry.2 = true → entry.1 = key) :
    map.values.filter test = [value] := by
  have member := get?_eq_some_iff.mp found
  have distinct : map.entries.Nodup := map.keys_nodup.of_map _
  have entries : (map.entries.filter fun entry => test entry.2) = [(key, value)] := by
    apply List.perm_singleton.mp
    apply (List.perm_ext_iff_of_nodup (distinct.filter _) (List.nodup_singleton _)).mpr
    intro entry
    rw [List.mem_filter, List.mem_singleton]
    constructor
    · intro given
      obtain ⟨among, passed⟩ := given
      exact List.inj_on_of_nodup_map map.keys_nodup among member (only entry among passed)
    · rintro rfl
      exact ⟨member, passes⟩
  rw [values, List.filter_map]
  exact congrArg (List.map Prod.snd) entries

end SortedMap
