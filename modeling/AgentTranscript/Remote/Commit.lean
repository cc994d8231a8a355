import AgentTranscript.Library.Transition
import AgentTranscript.Catalog.Update
import AgentTranscript.Remote.Store

/-!
`commit_catalog` as a step machine. Every call owns a phase; a step of one call
is one request to the store or one local computation, so any interleaving of
concurrent calls is a sequence of such steps.
-/

set_option autoImplicit false

namespace AgentTranscript

open VersionedCell

/-- Where a call stands. The phases before `returned` name what is done next. -/
inductive CommitPhase (Blob : Type) where
  | reading
  | loading (attempt : Nat)
  | merging (attempt : Nat) (base : Catalog) (etag : Option ETag)
  | pruning (attempt : Nat) (merged : Catalog) (etag : Option ETag)
  | putting (attempt : Nat) (pruned : Catalog) (body : Blob) (etag : Option ETag)
  | returned (result : Except Error Catalog)

def commitStart {Blob : Type} (incoming : Catalog) : CommitPhase Blob :=
  if incoming.sessions.isEmpty then .reading else .loading 1

def commitPrecondition : Option ETag → Precondition
  | some etag => .ifMatch etag
  | none => .ifNoneMatchStar

/-- The catalog object, the calls, and the catalogs written so far in order. -/
structure CommitWorld (Call Blob : Type) where
  cell : Cell Blob ETag
  calls : Call → CommitPhase Blob
  log : List (Call × Catalog)

/-- One step of `call`. The nonce is used when it encrypts, the ETag is the one
the store gives to what it writes. -/
structure CommitAction (Call : Type) where
  call : Call
  nonce : Nonce
  etag : ETag

section Machine

variable {Call Blob : Type} [DecidableEq Call]

def CommitWorld.setPhase (world : CommitWorld Call Blob) (call : Call)
    (phase : CommitPhase Blob) : CommitWorld Call Blob :=
  { world with calls := Function.update world.calls call phase }

def CommitWorld.write (world : CommitWorld Call Blob) (call : Call) (catalog : Catalog)
    (body : Blob) (etag : ETag) : CommitWorld Call Blob where
  cell := world.cell.write body etag
  calls := Function.update world.calls call (.returned (.ok catalog))
  log := world.log ++ [(call, catalog)]

variable [HarnessNames] [CatalogCodec Blob]

/-- One step of one call. A call that has returned takes no step, and the store
never gives an ETag out twice. -/
def commitStep (incoming : Call → Catalog) (world : CommitWorld Call Blob)
    (action : CommitAction Call) : Option (CommitWorld Call Blob) :=
  match world.calls action.call with
  | .reading =>
      match loadCatalog (getObject world.cell) with
      | .ok (catalog, _) => some (world.setPhase action.call (.returned (.ok catalog)))
      | .error error => some (world.setPhase action.call (.returned (.error error)))
  | .loading attempt =>
      match loadCatalog (getObject world.cell) with
      | .ok (base, etag) => some (world.setPhase action.call (.merging attempt base etag))
      | .error error => some (world.setPhase action.call (.returned (.error error)))
  | .merging attempt base etag =>
      match mergeCatalogs base (incoming action.call) with
      | .ok merged => some (world.setPhase action.call (.pruning attempt merged etag))
      | .error error => some (world.setPhase action.call (.returned (.error error)))
  | .pruning attempt merged etag =>
      match CatalogCodec.encode action.nonce (pruneToCurrent merged) with
      | .ok body =>
          some (world.setPhase action.call (.putting attempt (pruneToCurrent merged) body etag))
      | .error error => some (world.setPhase action.call (.returned (.error error)))
  | .putting attempt pruned body etag =>
      if (commitPrecondition etag).guard.holds world.cell.content then
        if action.etag ∈ world.cell.issued then none
        else some (world.write action.call pruned body action.etag)
      else if attempt < 5 then some (world.setPhase action.call (.loading (attempt + 1)))
      else some (world.setPhase action.call (.returned (.error .precondition)))
  | .returned _ => none

def CommitWorld.start (incoming : Call → Catalog) (cell : Cell Blob ETag) :
    CommitWorld Call Blob where
  cell := cell
  calls := fun call => commitStart (incoming call)
  log := []

/-- Any interleaving of the calls, from a store that holds `cell`. -/
abbrev CommitRun (incoming : Call → Catalog) (cell : Cell Blob ETag) :
    CommitWorld Call Blob → Prop :=
  Transition.Run (commitStep incoming) (fun _ _ => True) (CommitWorld.start incoming cell)

end Machine

/-- The catalogs stored when the incoming catalogs are applied one at a time. -/
def serialCatalogs [HarnessNames] (base : Catalog) : List Catalog → Except Error (List Catalog)
  | [] => .ok []
  | incoming :: rest => do
      let next ← updateCatalog base incoming
      let later ← serialCatalogs next rest
      .ok (next :: later)

end AgentTranscript
