import Mathlib

/-!
A cell whose every written version gets a tag never used before, with writes
conditional on the tag. A condition taken from a read holds only while what was
read is still there, so a conditional write replaces exactly what its writer saw.
-/

set_option autoImplicit false

namespace VersionedCell

universe u v

variable {β : Type u} {τ : Type v}

/-- The present content with its tag, and every tag handed out so far. -/
structure Cell (β : Type u) (τ : Type v) where
  content : Option (β × τ)
  issued : List τ
  tagged : ∀ stored, content = some stored → stored.2 ∈ issued

inductive Guard (τ : Type v) where
  | always
  | absent
  | version (tag : τ)
  deriving DecidableEq, Repr

def Guard.holds [DecidableEq τ] (content : Option (β × τ)) : Guard τ → Bool
  | .always => true
  | .absent => content.isNone
  | .version tag => content.any fun stored => stored.2 = tag

def Cell.value (cell : Cell β τ) : Option β :=
  cell.content.map Prod.fst

def Cell.empty : Cell β τ where
  content := none
  issued := []
  tagged := by simp

def Cell.write (cell : Cell β τ) (value : β) (tag : τ) : Cell β τ where
  content := some (value, tag)
  issued := tag :: cell.issued
  tagged := by
    intro stored found
    cases found
    exact List.mem_cons_self

/-- The condition a reader takes along: the version it saw, or that it saw none. -/
def Cell.readGuard (cell : Cell β τ) : Guard τ :=
  match cell.content with
  | none => .absent
  | some stored => .version stored.2

variable [DecidableEq τ]

/-- `guard` was taken from a read of `seen`: it only names a tag already handed
out, and where it holds the cell still has the value that was read. -/
structure Snapshot (cell : Cell β τ) (guard : Guard τ) (seen : Option β) : Prop where
  conditional : guard ≠ .always
  issued : ∀ tag, guard = .version tag → tag ∈ cell.issued
  current : guard.holds cell.content = true → cell.value = seen

theorem Snapshot.read (cell : Cell β τ) : Snapshot cell cell.readGuard cell.value where
  conditional := by
    unfold Cell.readGuard
    split <;> simp
  issued := by
    intro tag named
    unfold Cell.readGuard at named
    split at named
    · cases named
    · rename_i stored found
      cases named
      exact cell.tagged stored found
  current := fun _ => rfl

/-- After a write with a fresh tag no earlier condition holds. -/
theorem Snapshot.write {cell : Cell β τ} {guard : Guard τ} {seen : Option β}
    (snapshot : Snapshot cell guard seen) (value : β) {tag : τ} (fresh : tag ∉ cell.issued) :
    Snapshot (cell.write value tag) guard seen where
  conditional := snapshot.conditional
  issued := fun other named => List.mem_cons_of_mem _ (snapshot.issued other named)
  current := by
    intro holds
    cases guard with
    | always => exact absurd rfl snapshot.conditional
    | absent => simp [Guard.holds, Cell.write] at holds
    | version other =>
        have same : tag = other := by simpa [Guard.holds, Cell.write] using holds
        exact absurd (same ▸ snapshot.issued other rfl) fresh

end VersionedCell
