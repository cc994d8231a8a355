import AgentTranscript.Library.Loop
import AgentTranscript.Merge.RankProperties
import AgentTranscript.Views.Select

/-! What `select` lists, and that merging two sides decides as one choice would. -/

set_option autoImplicit false

namespace AgentTranscript

open Loop Ranking

section Pairing

def twinOf (repoKey : String) (remotes : List RemoteView) (view : LocalView) :
    Option (RemoteView × Nat) :=
  remotes.zipIdx.find? fun entry => isTwin repoKey view entry.1

def pairUp (repoKey : String) (remotes : List RemoteView) (view : LocalView) : MergedView :=
  match twinOf repoKey remotes view with
  | some entry => mergePair view entry.1
  | none => if view.ambiguous then ambiguousLocal view else fromLocal view

theorem twinOf_mem {repoKey : String} {remotes : List RemoteView} {view : LocalView}
    {entry : RemoteView × Nat} (found : twinOf repoKey remotes view = some entry) :
    entry ∈ remotes.zipIdx ∧ isTwin repoKey view entry.1 = true := by
  unfold twinOf at found
  exact ⟨List.mem_of_find?_eq_some found, by simpa using List.find?_some found⟩

theorem zip_marks {remotes : List RemoteView} (mark : RemoteView × Nat → Bool) :
    remotes.zip (remotes.zipIdx.map mark) =
      remotes.zipIdx.map fun entry => (entry.1, mark entry) := by
  have values : remotes.zip (remotes.zipIdx.map mark) =
      (remotes.zipIdx.map Prod.fst).zip (remotes.zipIdx.map mark) := by
    rw [List.zipIdx_map_fst]
  rw [values, List.zip_map']

/-- The loop over local views pushes one merged view for each, and marks the
remote views that are somebody's twin. -/
theorem selectStep_fold (repoKey : String) (remotes : List RemoteView) (views : List LocalView) :
    views.foldl (selectStep repoKey remotes) (remotes.map fun _ => false, []) =
      (remotes.zipIdx.map fun entry =>
          views.any fun view => twinOf repoKey remotes view = some entry,
        views.map (pairUp repoKey remotes)) := by
  apply foldl_invariant (fun seen state => state =
    (remotes.zipIdx.map fun entry => seen.any fun view => twinOf repoKey remotes view = some entry,
      seen.map (pairUp repoKey remotes)))
  · simp only [List.any_nil, List.map_nil, Prod.mk.injEq, and_true]
    apply List.ext_getElem <;> simp
  · intro seen view rest state _ holds
    subst holds
    unfold selectStep
    rw [← twinOf]
    cases found : twinOf repoKey remotes view with
    | none => by_cases tied : view.ambiguous = true <;> simp [pairUp, found, tied]
    | some entry =>
        obtain ⟨member, _⟩ := twinOf_mem found
        have located := List.mem_zipIdx' member
        simp only [List.map_append, List.map_singleton, Prod.mk.injEq]
        refine ⟨?_, by simp [pairUp, found]⟩
        apply List.ext_getElem
        · simp
        · intro place bound _
          have inRange : place < remotes.length := by simpa using bound
          by_cases same : entry.2 = place
          · subst same
            simp [found, ← located.2]
          · have other : entry ≠ (remotes[place], place) := fun equal => same (by rw [equal])
            simp [found, same, other]

end Pairing

section Listing

variable [HarnessNames]

theorem mem_select {repoKey : String} {selected : Option HarnessId} {locals : List LocalView}
    {remotes : List RemoteView} {merged : MergedView} :
    merged ∈ select repoKey selected locals remotes ↔
      (∃ view ∈ locals, matchesScope view.harness view.repoKey repoKey selected = true ∧
        pairUp repoKey remotes view = merged) ∨
      (∃ entry ∈ remotes.zipIdx,
        matchesScope entry.1.harness (some entry.1.repoKey) repoKey selected = true ∧
        (∀ view ∈ locals, matchesScope view.harness view.repoKey repoKey selected = true →
          twinOf repoKey remotes view ≠ some entry) ∧
        fromRemote entry.1 = merged) := by
  simp only [select, selectStep_fold]
  simp only [List.mem_insertionSort, List.mem_append, zip_marks]
  constructor
  · intro either
    rcases either with pushed | rest
    · obtain ⟨view, member, shape⟩ := List.mem_map.mp pushed
      obtain ⟨present, inScope⟩ := List.mem_filter.mp member
      exact .inl ⟨view, present, inScope, shape⟩
    · obtain ⟨marked, member, shape⟩ := List.mem_map.mp rest
      obtain ⟨present, unused⟩ := List.mem_filter.mp member
      obtain ⟨entry, located, rfl⟩ := List.mem_map.mp present
      have both : (∀ view ∈ locals,
          matchesScope view.harness view.repoKey repoKey selected = true →
            ¬ twinOf repoKey remotes view = some entry) ∧
          matchesScope entry.1.harness (some entry.1.repoKey) repoKey selected = true := by
        simpa using unused
      exact .inr ⟨entry, located, both.2, both.1, shape⟩
  · intro either
    rcases either with pushed | rest
    · obtain ⟨view, present, inScope, shape⟩ := pushed
      exact .inl (List.mem_map.mpr ⟨view, List.mem_filter.mpr ⟨present, inScope⟩, shape⟩)
    · obtain ⟨entry, located, inScope, unused, shape⟩ := rest
      refine .inr (List.mem_map.mpr ⟨_, List.mem_filter.mpr
        ⟨List.mem_map.mpr ⟨entry, located, rfl⟩, ?_⟩, shape⟩)
      simpa using ⟨unused, inScope⟩

end Listing

end AgentTranscript
