import Mathlib.Data.List.Basic

/-!
Texts made of parts and a separator. The parts can be read back when none of them
holds the separator; of a pair, when the part on one side of it does not.
-/

set_option autoImplicit false

namespace Delimited

variable {α : Type*} {separator : α} {front rest other last : List α}
  {parts others : List (List α)}

theorem intercalate_cons (separator : α) (first : List α) (parts : List (List α)) :
    [separator].intercalate (first :: parts) = first ++ parts.flatMap (separator :: ·) := by
  induction parts generalizing first with
  | nil => simp
  | cons next parts ih => simp [List.intercalate_cons_cons, ih]

theorem splitOn_flatMap [BEq α] [LawfulBEq α] (separator : α) (items : List α) :
    (items.splitOn separator).flatMap (separator :: ·) = separator :: items := by
  obtain ⟨first, others, shape⟩ :=
    List.exists_cons_of_ne_nil (List.splitOn_ne_nil separator items)
  have whole := @List.intercalate_splitOn α items _ _ separator
  rw [shape, intercalate_cons] at whole
  rw [shape, List.flatMap_cons, List.cons_append, whole]

theorem intercalate_concat (separator last : List α) {parts : List (List α)}
    (nonempty : parts ≠ []) : separator.intercalate (parts ++ [last]) =
      separator.intercalate parts ++ separator ++ last := by
  induction parts with
  | nil => exact absurd rfl nonempty
  | cons first rest ih =>
      cases rest with
      | nil => simp [List.intercalate_cons_cons]
      | cons second others =>
          rw [List.cons_append, List.intercalate_cons_of_ne_nil (by simp), ih (by simp),
            List.intercalate_cons_of_ne_nil (List.cons_ne_nil second others)]
          simp

theorem intercalate_inj [DecidableEq α] (absent : ∀ part ∈ parts, separator ∉ part)
    (missing : ∀ part ∈ others, separator ∉ part) (nonempty : parts ≠ []) (filled : others ≠ [])
    (same : [separator].intercalate parts = [separator].intercalate others) : parts = others := by
  rw [← List.splitOn_intercalate separator absent nonempty, same,
    List.splitOn_intercalate separator missing filled]

theorem first_inj (absent : separator ∉ front) (missing : separator ∉ other)
    (same : front ++ separator :: rest = other ++ separator :: last) :
    front = other ∧ rest = last := by
  induction front generalizing other with
  | nil =>
      cases other with
      | nil => exact ⟨rfl, List.cons_injective same⟩
      | cons head tail =>
          obtain ⟨rfl, -⟩ := List.cons_eq_cons.mp same
          exact absurd List.mem_cons_self missing
  | cons item front ih =>
      cases other with
      | nil =>
          obtain ⟨rfl, -⟩ := List.cons_eq_cons.mp same
          exact absurd List.mem_cons_self absent
      | cons head tail =>
          obtain ⟨rfl, later⟩ := List.cons_eq_cons.mp same
          obtain ⟨rfl, rfl⟩ := ih (fun inside => absent (List.mem_cons_of_mem item inside))
            (fun inside => missing (List.mem_cons_of_mem item inside)) later
          exact ⟨rfl, rfl⟩

theorem last_inj (absent : separator ∉ rest) (missing : separator ∉ last)
    (same : front ++ separator :: rest = other ++ separator :: last) :
    front = other ∧ rest = last := by
  have reversed : rest.reverse ++ separator :: front.reverse =
      last.reverse ++ separator :: other.reverse := by
    simpa using congrArg List.reverse same
  obtain ⟨back, start⟩ := first_inj (by simpa using absent) (by simpa using missing) reversed
  exact ⟨List.reverse_injective start, List.reverse_injective back⟩

/-- Every part followed by the separator. -/
def terminated (separator : α) (parts : List (List α)) : List α :=
  parts.flatMap fun part => part ++ [separator]

theorem terminated_eq (separator : α) (parts : List (List α)) :
    terminated separator parts = [separator].intercalate (parts ++ [[]]) := by
  induction parts with
  | nil => simp [terminated]
  | cons part parts ih =>
      have later : [separator].intercalate (part :: (parts ++ [[]])) =
          part ++ [separator] ++ [separator].intercalate (parts ++ [[]]) := by
        cases parts <;> simp [List.intercalate_cons_cons]
      rw [List.cons_append, later, ← ih]
      rfl

theorem terminated_inj [DecidableEq α] (absent : ∀ part ∈ parts, separator ∉ part)
    (missing : ∀ part ∈ others, separator ∉ part)
    (same : terminated separator parts = terminated separator others) : parts = others := by
  have ends : ∀ list : List (List α), (∀ part ∈ list, separator ∉ part) →
      ∀ part ∈ list ++ [[]], separator ∉ part := by
    intro list none part member
    rcases List.mem_append.mp member with inside | final
    · exact none part inside
    · rw [List.mem_singleton.mp final]
      exact List.not_mem_nil
  rw [terminated_eq, terminated_eq] at same
  exact List.append_cancel_right
    (intercalate_inj (ends parts absent) (ends others missing) (by simp) (by simp) same)

/-- Parts that are each led by their length, in a fixed width, can be told apart. -/
theorem counted_inj {header : Nat → List α} {width bound : Nat}
    (fixed : ∀ count, (header count).length = width + 1)
    (apart : ∀ count other, count < bound → other < bound → header count = header other →
      count = other) {left : List (List α)} (short : ∀ part ∈ left, part.length < bound)
    {right : List (List α)} (small : ∀ part ∈ right, part.length < bound)
    (same : (left.flatMap fun part => header part.length ++ part) =
      right.flatMap fun part => header part.length ++ part) : left = right := by
  induction left generalizing right with
  | nil =>
      cases right with
      | nil => rfl
      | cons part rest =>
          have size := congrArg List.length same
          simp [fixed] at size
          omega
  | cons first later ih =>
      cases right with
      | nil =>
          have size := congrArg List.length same
          simp [fixed] at size
      | cons part rest =>
          simp only [List.flatMap_cons, List.append_assoc] at same
          obtain ⟨headers, others⟩ := List.append_inj same ((fixed _).trans (fixed _).symm)
          have count := apart _ _ (short first List.mem_cons_self) (small part List.mem_cons_self)
            headers
          obtain ⟨equal, others⟩ := List.append_inj others count
          rw [equal, ih (fun item member => short item (List.mem_cons_of_mem first member))
            (fun item member => small item (List.mem_cons_of_mem part member)) others]

end Delimited
