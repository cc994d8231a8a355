import AgentTranscript.Search.Requests

/-! Which snapshot the published object ends up with. -/

set_option autoImplicit false

namespace AgentTranscript

open Transition

section Publish

variable {Extracted Stored : Type} [HarnessNames] [DocumentCodec] [DocumentReader]
  [Txcript Extracted] [SnapshotCodec Extracted Stored] {repoKey : String} {canWrite : Bool}
  {runtime : Runtime Extracted} {file object : Option Stored}
  {server final : SearchServer Extracted Stored}

/-- The install may write, and of the PUTs on their way the one that was spawned last is the
last to land. -/
def InOrder (canWrite : Bool) (server : SearchServer Extracted Stored) : SearchAction → Prop
  | .write _ _ _ => canWrite = true
  | .deliver put => put + 1 = server.inFlight.length → put = 0
  | _ => True

instance (server : SearchServer Extracted Stored) :
    ∀ action, Decidable (InOrder canWrite server action)
  | .write _ _ _ => inferInstanceAs (Decidable (canWrite = true))
  | .deliver put => inferInstanceAs (Decidable (put + 1 = server.inFlight.length → put = 0))
  | .merge _ _ | .read _ | .query _ => inferInstanceAs (Decidable True)

/-- The snapshot saved last was spawned last, and is published once all PUTs have landed. -/
structure Underway (server : SearchServer Extracted Stored) : Prop where
  spawned : ∀ plain, server.inFlight.getLast? = some plain → server.persisted = some plain
  landed : server.inFlight = [] →
    ∀ latest, server.persisted = some latest → server.object = some latest

/-- Where the PUT spawned last lands before others, which carry other snapshots, the object
ends up with one of theirs unless another snapshot is saved. -/
theorem out_of_order_stale {put : Nat} {latest : Stored} (underway : Underway server)
    (found : server.inFlight[put]? = some latest) (late : ¬ InOrder canWrite server (.deliver put))
    (older : latest ∉ server.inFlight.eraseIdx put)
    (run : Run (searchStep repoKey canWrite) (fun _ action => ∃ other, action = .deliver other)
      { server with inFlight := server.inFlight.eraseIdx put, object := some latest } final)
    (landed : final.inFlight = []) :
    final.persisted = some latest ∧ final.object ≠ some latest := by
  obtain ⟨inside, _⟩ := List.getElem?_eq_some_iff.mp found
  have length := List.length_eraseIdx_of_lt inside
  have spawned : put + 1 = server.inFlight.length ∧ put ≠ 0 := by
    simpa [InOrder] using late
  have last : server.inFlight.getLast? = some latest := by
    rw [List.getLast?_eq_getElem?, show server.inFlight.length - 1 = put by omega, found]
  have stays : final.persisted = some latest ∧ latest ∉ final.inFlight ∧
      (final.inFlight = [] → final.object ≠ some latest) := by
    apply run.invariant fun state => state.persisted = some latest ∧ latest ∉ state.inFlight ∧
      (state.inFlight = [] → state.object ≠ some latest)
    · refine ⟨underway.spawned latest last, older, ?_⟩
      intro empty
      have none := congrArg List.length empty
      rw [length, List.length_nil] at none
      omega
    · intro current action next held delivers stepped
      obtain ⟨other, rfl⟩ := delivers
      simp only [searchStep] at stepped
      split at stepped
      · rename_i landing present
        cases stepped
        refine ⟨held.1, fun coming => held.2.1 (List.mem_of_mem_eraseIdx coming), ?_⟩
        intro _ same
        cases same
        exact held.2.1 (List.mem_of_getElem? present)
      · cases stepped
  exact ⟨stays.1, stays.2.2 landed⟩

end Publish

section Example

attribute [local instance] HarnessNames.snakeCase DocumentCodec.padded DocumentReader.plain
  Txcript.plain SnapshotCodec.plain

end Example

end AgentTranscript
