import AgentTranscript.Library.Loop

/-!
Packing a list into consecutive groups of bounded size. The next item joins the last group
unless the group would exceed the budget; an item that exceeds it has a group of its own.
-/

set_option autoImplicit false

namespace Packing

variable {α : Type*} (size : α → Nat) (budget : Nat)

def total (group : List α) : Nat :=
  (group.map size).sum

/-- The groups that are closed, and the one that is being filled. -/
structure Fill (α : Type*) where
  closed : List (List α)
  current : List α

def Fill.groups (fill : Fill α) : List (List α) :=
  if fill.current.isEmpty then fill.closed else fill.closed ++ [fill.current]

/-- An item opens a group where the last one is full, unless that one is empty. -/
def Fill.place (full : Bool) (fill : Fill α) (item : α) : Fill α :=
  if !fill.current.isEmpty && full then ⟨fill.closed ++ [fill.current], [item]⟩
  else ⟨fill.closed, fill.current ++ [item]⟩

def Fill.add (fill : Fill α) (item : α) : Fill α :=
  fill.place (decide (budget < total size fill.current + size item)) item

def fillAll (items : List α) : Fill α :=
  items.foldl (Fill.add size budget) ⟨[], []⟩

/-- A group of one item, or of items within the budget. -/
def Fits (group : List α) : Prop :=
  group.length = 1 ∨ total size group ≤ budget

/-- The first item of a group did not fit in the group before. -/
def Exceeds (group next : List α) : Prop :=
  ∃ item rest, next = item :: rest ∧ budget < total size group + size item

/-- Consecutive groups of the items. -/
structure Divided (items : List α) (groups : List (List α)) : Prop where
  covers : groups.flatten = items
  nonempty : ∀ group ∈ groups, group ≠ []

/-- Consecutive groups of the items, each as long as the budget allows. -/
structure Packed (items : List α) (groups : List (List α)) : Prop
    extends Divided items groups where
  fits : ∀ group ∈ groups, Fits size budget group
  maximal : groups.IsChain (Exceeds size budget)

variable {size budget} {items : List α} {fill : Fill α}

theorem total_append (group others : List α) :
    total size (group ++ others) = total size group + total size others := by
  simp [total]

theorem total_singleton (item : α) : total size [item] = size item := by
  simp [total]

section Groups

variable {groups : List (List α)} {current : List α} {item : α}

theorem Divided.open (divided : Divided items groups) :
    Divided (items ++ [item]) (groups ++ [[item]]) where
  covers := by simp [divided.covers]
  nonempty := by
    intro group member
    rcases List.mem_append.mp member with old | new
    · exact divided.nonempty group old
    · rw [List.mem_singleton.mp new]
      exact List.cons_ne_nil item []

theorem Divided.join (divided : Divided items (groups ++ [current])) :
    Divided (items ++ [item]) (groups ++ [current ++ [item]]) where
  covers := by simp [← divided.covers]
  nonempty := by
    intro group member
    rcases List.mem_append.mp member with old | new
    · exact divided.nonempty group (List.mem_append_left _ old)
    · simp [List.mem_singleton.mp new]

theorem Packed.nil : Packed size budget [] [] :=
  ⟨⟨rfl, by simp⟩, by simp, by simp⟩

/-- An item that does not fit in the last group starts one. -/
theorem Packed.open (packed : Packed size budget items groups)
    (full : ∀ last ∈ groups.getLast?, budget < total size last + size item) :
    Packed size budget (items ++ [item]) (groups ++ [[item]]) where
  toDivided := packed.toDivided.open
  fits := by
    intro group member
    rcases List.mem_append.mp member with old | new
    · exact packed.fits group old
    · rw [List.mem_singleton.mp new]
      exact .inl rfl
  maximal := by
    refine packed.maximal.append (List.isChain_singleton _) ?_
    intro last before next first
    cases first
    exact ⟨item, [], rfl, full last before⟩

/-- An item that fits joins the last group. -/
theorem Packed.join (packed : Packed size budget items (groups ++ [current]))
    (room : total size current + size item ≤ budget) :
    Packed size budget (items ++ [item]) (groups ++ [current ++ [item]]) where
  toDivided := packed.toDivided.join
  fits := by
    intro group member
    rcases List.mem_append.mp member with old | new
    · exact packed.fits group (List.mem_append_left _ old)
    · rw [List.mem_singleton.mp new]
      right
      rwa [total_append, total_singleton]
  maximal := by
    have chain := List.isChain_append.mp packed.maximal
    refine chain.1.append (List.isChain_singleton _) ?_
    intro last before next first
    cases first
    obtain ⟨head, rest, shape, full⟩ := chain.2.2 last before current rfl
    exact ⟨head, rest ++ [item], by rw [shape, List.cons_append], full⟩

end Groups

/-- The groups divide what was seen, and the last one is not empty. -/
structure Dividing (seen : List α) (fill : Fill α) : Prop where
  divided : Divided seen fill.groups
  started : seen ≠ [] → fill.current ≠ []

theorem Dividing.start : Dividing ([] : List α) ⟨[], []⟩ :=
  ⟨⟨rfl, by simp [Fill.groups]⟩, fun wrong => absurd rfl wrong⟩

/-- Before the first item there is no group. -/
theorem Dividing.fresh {seen : List α} {closed : List (List α)}
    (dividing : Dividing seen ⟨closed, []⟩) : seen = [] ∧ closed = [] := by
  have fresh : seen = [] := by
    by_contra occupied
    exact dividing.started occupied rfl
  refine ⟨fresh, ?_⟩
  have covers : closed.flatten = seen := dividing.divided.covers
  rw [fresh, List.flatten_eq_nil_iff] at covers
  by_contra occupied
  obtain ⟨group, others, rfl⟩ := List.exists_cons_of_ne_nil occupied
  exact dividing.divided.nonempty group List.mem_cons_self (covers group List.mem_cons_self)

theorem Dividing.whole {seen : List α} (dividing : Dividing seen fill) :
    fill.closed.flatten ++ fill.current = seen := by
  have covers := dividing.divided.covers
  unfold Fill.groups at covers
  split at covers
  · rename_i empty
    rw [List.isEmpty_iff.mp empty, List.append_nil, covers]
  · simpa using covers

theorem Dividing.place {seen : List α} (dividing : Dividing seen fill) (full : Bool) (item : α) :
    Dividing (seen ++ [item]) (fill.place full item) := by
  obtain ⟨closed, current⟩ := fill
  cases current with
  | nil =>
      obtain ⟨rfl, rfl⟩ := dividing.fresh
      refine ⟨⟨rfl, ?_⟩, fun _ => List.cons_ne_nil item []⟩
      intro group member
      rw [show group = [item] from List.mem_singleton.mp member]
      exact List.cons_ne_nil item []
  | cons first rest =>
      have held : Divided seen (closed ++ [first :: rest]) := dividing.divided
      unfold Fill.place
      split
      · exact ⟨held.open, fun _ => List.cons_ne_nil item []⟩
      · exact ⟨held.join, fun _ => by simp⟩

/-- What is known while the last group is being filled. -/
structure Filling (size : α → Nat) (budget : Nat) (seen : List α) (fill : Fill α) : Prop where
  packed : Packed size budget seen fill.groups
  started : seen ≠ [] → fill.current ≠ []

theorem Filling.start : Filling size budget [] ⟨[], []⟩ :=
  ⟨.nil, fun wrong => absurd rfl wrong⟩

theorem Filling.dividing {seen : List α} (filling : Filling size budget seen fill) :
    Dividing seen fill :=
  ⟨filling.packed.toDivided, filling.started⟩

theorem Filling.add {seen : List α} (filling : Filling size budget seen fill) (item : α) :
    Filling size budget (seen ++ [item]) (fill.add size budget item) := by
  obtain ⟨closed, current⟩ := fill
  cases current with
  | nil =>
      obtain ⟨rfl, rfl⟩ := filling.dividing.fresh
      exact ⟨Packed.nil.open (by simp), fun _ => List.cons_ne_nil item []⟩
  | cons first rest =>
      have held : Packed size budget seen (closed ++ [first :: rest]) := filling.packed
      unfold Fill.add Fill.place
      split
      · rename_i full
        refine ⟨held.open ?_, fun _ => List.cons_ne_nil item []⟩
        intro last member
        rw [List.getLast?_concat] at member
        cases member
        simpa using full
      · rename_i room
        refine ⟨held.join ?_, fun _ => by simp⟩
        simpa using room

theorem fillAll_packed (size : α → Nat) (budget : Nat) (items : List α) :
    Filling size budget items (fillAll size budget items) :=
  Loop.foldl_invariant (Filling size budget) Filling.start
    fun _ item _ _ _ filling => filling.add item

end Packing
