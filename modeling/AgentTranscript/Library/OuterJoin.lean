import Mathlib

/-!
The full outer join of two lists by a key: one row for each key that either
list has.
-/

set_option autoImplicit false

universe u v w x

/-- How rows of two lists are joined. Every joined row keeps the key of the
rows it comes from. -/
structure OuterJoin (α : Type u) (β : Type v) (κ : Type w) (γ : Type x) where
  leftKey : α → κ
  rightKey : β → κ
  rowKey : γ → κ
  both : α → β → γ
  onlyLeft : α → γ
  onlyRight : β → γ
  both_key : ∀ left right, rightKey right = leftKey left → rowKey (both left right) = leftKey left
  onlyLeft_key : ∀ left, rowKey (onlyLeft left) = leftKey left
  onlyRight_key : ∀ right, rowKey (onlyRight right) = rightKey right

namespace OuterJoin

variable {α : Type u} {β : Type v} {κ : Type w} {γ : Type x} [DecidableEq κ]
  (join : OuterJoin α β κ γ) {lefts otherLefts : List α} {rights otherRights : List β}

def partner (rights : List β) (left : α) : Option β :=
  rights.find? fun right => join.rightKey right = join.leftKey left

def row (rights : List β) (left : α) : γ :=
  match join.partner rights left with
  | some right => join.both left right
  | none => join.onlyLeft left

def unmatched (lefts : List α) (rights : List β) : List β :=
  rights.filter fun right => lefts.all fun left => join.leftKey left ≠ join.rightKey right

def rows (lefts : List α) (rights : List β) : List γ :=
  lefts.map (join.row rights) ++ (join.unmatched lefts rights).map join.onlyRight

theorem partner_eq_none_iff {left : α} : join.partner rights left = none ↔
    ∀ right ∈ rights, join.rightKey right ≠ join.leftKey left := by
  simp [partner]

theorem partner_eq_some_iff (unique : (rights.map join.rightKey).Nodup) {left : α} {right : β} :
    join.partner rights left = some right ↔
      right ∈ rights ∧ join.rightKey right = join.leftKey left := by
  constructor
  · intro found
    exact ⟨List.mem_of_find?_eq_some found, by simpa using List.find?_some found⟩
  · intro given
    obtain ⟨member, same⟩ := given
    cases found : join.partner rights left with
    | none => exact absurd same (join.partner_eq_none_iff.mp found right member)
    | some other =>
        have otherKey : join.rightKey other = join.leftKey left := by
          simpa using List.find?_some found
        rw [List.inj_on_of_nodup_map unique (List.mem_of_find?_eq_some found) member
          (otherKey.trans same.symm)]

theorem mem_unmatched {right : β} : right ∈ join.unmatched lefts rights ↔
    right ∈ rights ∧ ∀ left ∈ lefts, join.leftKey left ≠ join.rightKey right := by
  simp [unmatched]

theorem row_key (rights : List β) (left : α) :
    join.rowKey (join.row rights left) = join.leftKey left := by
  unfold row
  cases found : join.partner rights left with
  | none => exact join.onlyLeft_key left
  | some right => exact join.both_key left right (by simpa using List.find?_some found)

theorem rows_keys : (join.rows lefts rights).map join.rowKey =
    lefts.map join.leftKey ++ (join.unmatched lefts rights).map join.rightKey := by
  rw [rows, List.map_append, List.map_map, List.map_map]
  congr 1
  · exact List.map_congr_left fun left _ => join.row_key rights left
  · exact List.map_congr_left fun right _ => join.onlyRight_key right

/-- A key has a row exactly when one of the lists has it. -/
theorem mem_rows_keys {key : κ} : key ∈ (join.rows lefts rights).map join.rowKey ↔
    key ∈ lefts.map join.leftKey ∨ key ∈ rights.map join.rightKey := by
  rw [rows_keys, List.mem_append]
  constructor
  · intro either
    rcases either with left | right
    · exact .inl left
    · obtain ⟨row, member, rfl⟩ := List.mem_map.mp right
      exact .inr (List.mem_map_of_mem (join.mem_unmatched.mp member).1)
  · intro either
    by_cases matched : key ∈ lefts.map join.leftKey
    · exact .inl matched
    · obtain ⟨row, member, rfl⟩ := List.mem_map.mp (either.resolve_left matched)
      refine .inr (List.mem_map_of_mem (join.mem_unmatched.mpr ⟨member, ?_⟩))
      intro left present same
      exact matched (same ▸ List.mem_map_of_mem present)

theorem rows_keys_nodup (leftsUnique : (lefts.map join.leftKey).Nodup)
    (rightsUnique : (rights.map join.rightKey).Nodup) :
    ((join.rows lefts rights).map join.rowKey).Nodup := by
  rw [rows_keys, List.nodup_append]
  refine ⟨leftsUnique, ?_, ?_⟩
  · exact rightsUnique.sublist (List.filter_sublist.map join.rightKey)
  · intro leftKey leftMember rightKey rightMember
    obtain ⟨left, present, rfl⟩ := List.mem_map.mp leftMember
    obtain ⟨right, member, rfl⟩ := List.mem_map.mp rightMember
    exact (join.mem_unmatched.mp member).2 left present

theorem partner_perm (unique : (rights.map join.rightKey).Nodup)
    (reordered : rights.Perm otherRights) (left : α) :
    join.partner rights left = join.partner otherRights left := by
  have otherUnique : (otherRights.map join.rightKey).Nodup :=
    (reordered.map join.rightKey).nodup_iff.mp unique
  apply Option.ext
  intro right
  rw [join.partner_eq_some_iff unique, join.partner_eq_some_iff otherUnique, reordered.mem_iff]

/-- The order of the lists decides nothing but the order of the rows. -/
theorem rows_perm (unique : (rights.map join.rightKey).Nodup)
    (leftsReordered : lefts.Perm otherLefts) (rightsReordered : rights.Perm otherRights) :
    (join.rows lefts rights).Perm (join.rows otherLefts otherRights) := by
  have sameRow : join.row rights = join.row otherRights := by
    funext left
    rw [row, row, join.partner_perm unique rightsReordered]
  have sameLone : join.unmatched lefts rights = join.unmatched otherLefts rights := by
    apply List.filter_congr
    intro right _
    exact leftsReordered.all_eq
  rw [rows, rows, sameRow, sameLone]
  exact (leftsReordered.map _).append ((rightsReordered.filter _).map _)

/-- Where a row comes from. -/
theorem mem_rows (unique : (rights.map join.rightKey).Nodup) {row : γ} :
    row ∈ join.rows lefts rights ↔
      (∃ left ∈ lefts, ∃ right ∈ rights, join.rightKey right = join.leftKey left ∧
        join.both left right = row) ∨
      (∃ left ∈ lefts, (∀ right ∈ rights, join.rightKey right ≠ join.leftKey left) ∧
        join.onlyLeft left = row) ∨
      ∃ right ∈ rights, (∀ left ∈ lefts, join.leftKey left ≠ join.rightKey right) ∧
        join.onlyRight right = row := by
  rw [rows, List.mem_append, List.mem_map, List.mem_map]
  constructor
  · intro either
    rcases either with paired | lone
    · obtain ⟨left, present, rfl⟩ := paired
      unfold OuterJoin.row
      cases found : join.partner rights left with
      | none => exact .inr (.inl ⟨left, present, join.partner_eq_none_iff.mp found, rfl⟩)
      | some right =>
          obtain ⟨rightMember, same⟩ := (join.partner_eq_some_iff unique).mp found
          exact .inl ⟨left, present, right, rightMember, same, rfl⟩
    · obtain ⟨right, member, rfl⟩ := lone
      obtain ⟨rightMember, apart⟩ := join.mem_unmatched.mp member
      exact .inr (.inr ⟨right, rightMember, apart, rfl⟩)
  · intro given
    rcases given with paired | lone | lone
    · obtain ⟨left, present, right, rightMember, same, rfl⟩ := paired
      refine .inl ⟨left, present, ?_⟩
      rw [OuterJoin.row, (join.partner_eq_some_iff unique).mpr ⟨rightMember, same⟩]
    · obtain ⟨left, present, apart, rfl⟩ := lone
      refine .inl ⟨left, present, ?_⟩
      rw [OuterJoin.row, join.partner_eq_none_iff.mpr apart]
    · obtain ⟨right, rightMember, apart, rfl⟩ := lone
      exact .inr ⟨right, join.mem_unmatched.mpr ⟨rightMember, apart⟩, rfl⟩

end OuterJoin
