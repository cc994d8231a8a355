import AgentTranscript.Remote.CommitProperties

/-! Concurrent commits behave as if each successful one had run alone, at the
time of its PUT. -/

set_option autoImplicit false

namespace AgentTranscript

open VersionedCell

section Statement

variable [HarnessNames] {Call Blob : Type} [DecidableEq Call] [CatalogCodec Blob]

/-- The one write a step can be: the catalog its call returns is the one it stores. -/
def Stores (world next : CommitWorld Call Blob) (call : Call) : Prop :=
  ∃ catalog body, next.calls call = .returned (.ok catalog) ∧
    next.cell.value = some body ∧ CatalogCodec.decode body = .ok catalog ∧
    next.log = world.log ++ [(call, catalog)]

def Keeps (world next : CommitWorld Call Blob) (call : Call) : Prop :=
  next.cell = world.cell ∧ next.log = world.log ∧
    ∀ catalog, next.calls call ≠ .returned (.ok catalog)

structure Serializable (incoming : Call → Catalog) (initial : Option Blob)
    (world : CommitWorld Call Blob) : Prop where
  untouched : world.log = [] → world.cell.value = initial
  serial : world.log ≠ [] → ∃ base, Reads initial base ∧
    serialCatalogs base (world.log.map fun write => incoming write.1) =
      .ok (world.log.map (·.2)) ∧
    (base :: world.log.map (·.2)).Pairwise Advances
  stored : ∀ write, world.log.getLast? = some write → ∃ body,
    world.cell.value = some body ∧ CatalogCodec.decode body = .ok write.2
  returned : ∀ call catalog,
    world.calls call = .returned (.ok catalog) ↔ (call, catalog) ∈ world.log
  once : (world.log.map (·.1)).Nodup
  effects : ∀ action next, commitStep incoming world action = some next →
    Keeps world next action.call ∨ Stores world next action.call

end Statement

section Proof

variable [HarnessNames] {Call Blob : Type} [DecidableEq Call] [CatalogCodec Blob]
  {incoming : Call → Catalog} {initial : Option Blob} {world : CommitWorld Call Blob}

theorem CommitInvariant.effects (invariant : CommitInvariant incoming initial world)
    (submits : ∀ call, (incoming call).sessions ≠ []) {action : CommitAction Call}
    {next : CommitWorld Call Blob} (taken : commitStep incoming world action = some next) :
    Keeps world next action.call ∨ Stores world next action.call := by
  rcases commitStep_cases taken with moved | put
  · obtain ⟨phase, move, rfl⟩ := moved
    have silent : ∀ catalog, phase ≠ .returned (.ok catalog) := by
      intro catalog finished
      cases move with
      | read reading _ =>
          have known := invariant.phases action.call
          rw [reading] at known
          exact submits action.call known
      | load => cases finished
      | merge => cases finished
      | prune => cases finished
      | retry => cases finished
      | fail => cases finished
    exact .inl ⟨rfl, rfl, by simpa [CommitWorld.setPhase] using silent⟩
  · obtain ⟨attempt, pruned, body, etag, phase, _, _, rfl⟩ := put
    have known := invariant.phases action.call
    rw [phase] at known
    obtain ⟨_, _, _, _, _, decoded⟩ := known
    exact .inr ⟨pruned, body, by simp [CommitWorld.write], rfl, decoded, rfl⟩

omit [DecidableEq Call] in
theorem CommitInvariant.stored (invariant : CommitInvariant incoming initial world)
    {write : Call × Catalog} (last : world.log.getLast? = some write) :
    ∃ body, world.cell.value = some body ∧ CatalogCodec.decode body = .ok write.2 := by
  rcases invariant.history with untouched | written
  · simp [untouched.1] at last
  · obtain ⟨base, body, _, _, _, present, decoded⟩ := written
    refine ⟨body, present, decoded.trans ?_⟩
    rw [List.getLastD_eq_getLast?, List.getLast?_map, last]
    rfl

/-- In every interleaving the stored catalogs are the incoming catalogs of the
successful calls applied one at a time, in the order of their PUTs. -/
theorem commitCatalog_serializable {cell : Cell Blob ETag}
    (submits : ∀ call, (incoming call).sessions ≠ []) (run : CommitRun incoming cell world) :
    Serializable incoming cell.value world := by
  have invariant := run.invariant
  refine ⟨?_, ?_, fun write last => invariant.stored last, ?_, invariant.once,
    fun action next taken => invariant.effects submits taken⟩
  · intro empty
    rcases invariant.history with untouched | written
    · exact untouched.2
    · obtain ⟨_, _, _, _, occupied, _⟩ := written
      exact absurd empty occupied
  · intro occupied
    rcases invariant.history with untouched | written
    · exact absurd untouched.1 occupied
    · obtain ⟨base, _, start, applied, _⟩ := written
      exact ⟨base, start, applied, serialCatalogs_advances applied⟩
  · intro call catalog
    constructor
    · exact fun finished => invariant.returned call catalog finished (submits call)
    · exact fun member => invariant.logged call catalog member

end Proof

section Example

attribute [local instance] HarnessNames.snakeCase CatalogCodec.plain

def raceIncoming : Bool → Catalog
  | false => Catalog.piece "repo" .codex "session" (.bare "aaa" 1)
  | true => Catalog.piece "repo" .codex "session" (.bare "bbb" 2)

/-- Both calls load the absent catalog, the second PUT conflicts and is retried. -/
def raceActions : List (CommitAction Bool) :=
  [false, true, false, true, false, true, false, true, true, true, true, true].zipIdx.map
    fun entry => ⟨entry.1, [], toString entry.2⟩

def raceWorld : Option (CommitWorld Bool Catalog) :=
  Transition.execute (commitStep raceIncoming) (fun _ _ => True)
    (CommitWorld.start raceIncoming Cell.empty) raceActions

theorem race_finishes :
    ∃ world, raceWorld = some world ∧ world.log.map (·.1) = [false, true] := by
  have order : raceWorld.map (fun world => world.log.map (·.1)) = some [false, true] := by decide
  exact Option.map_eq_some_iff.mp order

theorem commitCatalog_serializable_race : ∃ world : CommitWorld Bool Catalog,
    world.log.map (·.1) = [false, true] ∧ (∀ call, (raceIncoming call).sessions ≠ []) ∧
    CommitRun raceIncoming Cell.empty world ∧
    Serializable raceIncoming (Cell.empty : Cell Catalog ETag).value world := by
  obtain ⟨world, finished, order⟩ := race_finishes
  have submits : ∀ call, (raceIncoming call).sessions ≠ [] := by decide
  have run : CommitRun raceIncoming Cell.empty world := Transition.run_of_execute finished
  exact ⟨world, order, submits, run, commitCatalog_serializable submits run⟩

end Example

end AgentTranscript
