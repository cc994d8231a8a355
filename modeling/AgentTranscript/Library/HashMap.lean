import Mathlib

/-!
Finite maps without an order that anything observes, filled and emptied by
loops over lists.
-/

set_option autoImplicit false

universe u v

abbrev HashMap (κ : Type u) (ν : Type v) := AList fun _ : κ => ν

namespace HashMap

variable {κ : Type u} {ν : Type v} [DecidableEq κ]

def insertAll (map : HashMap κ ν) (entries : List (κ × ν)) : HashMap κ ν :=
  entries.foldl (fun map entry => map.insert entry.1 entry.2) map

def eraseAll (map : HashMap κ ν) (keys : List κ) : HashMap κ ν :=
  keys.foldl (fun map key => map.erase key) map

/-- `collect()` of an iterator of pairs: the last entry of a key stays. -/
def collect (entries : List (κ × ν)) : HashMap κ ν :=
  insertAll ∅ entries

def lastOf (entries : List (κ × ν)) (key : κ) : Option ν :=
  (entries.reverse.find? fun entry => entry.1 = key).map (·.2)

theorem lookup_insert_eq (map : HashMap κ ν) (key other : κ) (value : ν) :
    (map.insert key value).lookup other = if other = key then some value else map.lookup other := by
  split
  · rename_i same
    exact same ▸ AList.lookup_insert map
  · rename_i different
    exact AList.lookup_insert_ne different

theorem lookup_erase_eq (map : HashMap κ ν) (key other : κ) :
    (map.erase key).lookup other = if other = key then none else map.lookup other := by
  split
  · rename_i same
    exact same ▸ AList.lookup_erase _ map
  · rename_i different
    exact AList.lookup_erase_ne different

theorem lookup_insertAll (map : HashMap κ ν) (entries : List (κ × ν)) (key : κ) :
    (insertAll map entries).lookup key = (lastOf entries key).or (map.lookup key) := by
  induction entries using List.reverseRecOn with
  | nil => rfl
  | append_singleton entries last ih =>
      rw [insertAll, List.foldl_append] at *
      simp only [List.foldl_cons, List.foldl_nil, lookup_insert_eq, ih, lastOf,
        List.reverse_append, List.reverse_cons, List.reverse_nil, List.nil_append,
        List.singleton_append, List.find?_cons]
      by_cases same : last.1 = key
      · simp [same]
      · simp [same, Ne.symm same]

theorem lookup_collect (entries : List (κ × ν)) (key : κ) :
    (collect entries).lookup key = lastOf entries key := by
  rw [collect, lookup_insertAll, AList.lookup_empty, Option.or_none]

theorem lookup_eraseAll (map : HashMap κ ν) (keys : List κ) (key : κ) :
    (eraseAll map keys).lookup key = if key ∈ keys then none else map.lookup key := by
  induction keys generalizing map with
  | nil => simp [eraseAll]
  | cons first rest ih =>
      rw [eraseAll, List.foldl_cons, ← eraseAll, ih, lookup_erase_eq]
      by_cases later : key ∈ rest
      · simp [later]
      · by_cases same : key = first <;> simp [later, same]

theorem mem_of_lastOf {entries : List (κ × ν)} {key : κ} {value : ν}
    (found : lastOf entries key = some value) : (key, value) ∈ entries := by
  obtain ⟨entry, located, rfl⟩ := Option.map_eq_some_iff.mp found
  have same : entry.1 = key := by simpa using List.find?_some located
  exact same ▸ List.mem_reverse.mp (List.mem_of_find?_eq_some located)

theorem lastOf_eq_none_iff {entries : List (κ × ν)} {key : κ} :
    lastOf entries key = none ↔ ∀ entry ∈ entries, entry.1 ≠ key := by
  simp [lastOf]

theorem lastOf_cons (entry : κ × ν) (rest : List (κ × ν)) (key : κ) :
    lastOf (entry :: rest) key =
      (lastOf rest key).or (if entry.1 = key then some entry.2 else none) := by
  unfold lastOf
  rw [List.reverse_cons, List.find?_append, Option.map_or]
  by_cases same : entry.1 = key <;> simp [same]

theorem lastOf_map {μ : Type*} (entries : List (κ × ν)) (view : ν → μ) (key : κ) :
    lastOf (entries.map fun entry => (entry.1, view entry.2)) key =
      (lastOf entries key).map view := by
  induction entries with
  | nil => rfl
  | cons entry rest ih =>
      rw [List.map_cons, lastOf_cons, lastOf_cons, ih, Option.map_or]
      by_cases same : entry.1 = key <;> simp [same]

/-- Only the entries of the key count, in their order. -/
theorem lastOf_congr {left right : List (κ × ν)} {key : κ}
    (same : (left.filter fun entry => entry.1 = key) = right.filter fun entry => entry.1 = key) :
    lastOf left key = lastOf right key := by
  unfold lastOf
  rw [← List.head?_filter, ← List.head?_filter, List.filter_reverse, List.filter_reverse, same]

/-- Where keys are unique, the last entry of a key is its only one. -/
theorem lastOf_of_mem {entries : List (κ × ν)} (unique : (entries.map (·.1)).Nodup) {key : κ}
    {value : ν} (member : (key, value) ∈ entries) : lastOf entries key = some value := by
  cases found : lastOf entries key with
  | none => exact absurd rfl (lastOf_eq_none_iff.mp found _ member)
  | some other =>
      have only := List.inj_on_of_nodup_map unique (mem_of_lastOf found) member rfl
      rw [(Prod.mk.inj only).2]

theorem mem_entries_iff {map : HashMap κ ν} {key : κ} {value : ν} :
    ⟨key, value⟩ ∈ map.entries ↔ map.lookup key = some value :=
  AList.mem_lookup_iff.symm

theorem mem_keys_iff {map : HashMap κ ν} {key : κ} : key ∈ map.keys ↔ map.lookup key ≠ none := by
  rw [← AList.mem_keys, ← AList.lookup_isSome, Option.isSome_iff_ne_none]

end HashMap
