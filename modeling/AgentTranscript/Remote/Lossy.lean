import AgentTranscript.Remote.Network
import AgentTranscript.Remote.Serializable

/-!
Commits of several machines over a network that loses requests and answers, beside any other
requests of theirs. Every run is matched by one in which all requests are answered and the
calls that were told of a failure just stop.
-/

set_option autoImplicit false

namespace AgentTranscript

open Loop VersionedCell

section Machine

/-- The machines that share an archive: one service, one bucket, and a client each. -/
structure Deployment (Call : Type) where
  service : Service
  bucket : String
  clients : Call → R2
  reaches : ∀ call, (clients call).endpoint = service.endpoint
  shares : ∀ call, (clients call).bucket = bucket

variable {Call : Type}

def Deployment.catalog (deployment : Deployment Call) : String × String :=
  (deployment.bucket, catalogKey)

/-- `log` has the catalogs that the service stored, in order. -/
structure WireWorld (Call : Type) where
  holdings : Holdings
  calls : Call → CommitPhase Bytes
  log : List (Call × Catalog)

/-- A step of a call, or a request that is not part of a commit. The tag is what the service
would give to what the request writes. -/
inductive WireAction (Call : Type) where
  | commit (call : Call) (now : DateTime) (nonce : Nonce) (delivery : Delivery) (tag : EntityTag)
  | other (client : R2) (operation : Operation) (now : DateTime) (delivery : Delivery)
      (tag : EntityTag)

/-- The operation does not write the object. -/
def Operation.Spares (client : R2) (target : String × String) : Operation → Prop
  | .put key _ _ => (client.bucket, key) ≠ target
  | .delete key => (client.bucket, key) ≠ target
  | _ => True

/-- Tags of the catalog are new, and only commits write the catalog. -/
def WireAllowed (deployment : Deployment Call) (world : WireWorld Call) : WireAction Call → Prop
  | .commit _ _ _ _ tag => tag.val ∉ (world.holdings.cells deployment.catalog).issued
  | .other client operation _ _ _ => client.endpoint = deployment.service.endpoint ∧
      operation.Spares client deployment.catalog

variable [HarnessNames] [CatalogCodec Bytes]

/-- What a call does with the answer to its GET. -/
def afterGet (next : Catalog → Option ETag → CommitPhase Bytes) :
    Except Error (Option (Fetched Bytes)) → CommitPhase Bytes
  | .error error => .returned (.error error)
  | .ok fetched =>
      match loadCatalog fetched with
      | .ok (catalog, etag) => next catalog etag
      | .error error => .returned (.error error)

omit [HarnessNames] [CatalogCodec Bytes] in
/-- What a call does with the answer to its PUT. -/
def afterPut (attempt : Nat) (pruned : Catalog) : Except Error Unit → CommitPhase Bytes
  | .ok _ => .returned (.ok pruned)
  | .error .precondition =>
      if attempt < 5 then .loading (attempt + 1) else .returned (.error .precondition)
  | .error error => .returned (.error error)

variable [DecidableEq Call]

def WireWorld.move (world : WireWorld Call) (holdings : Holdings) (call : Call)
    (phase : CommitPhase Bytes) : WireWorld Call :=
  { world with holdings := holdings, calls := Function.update world.calls call phase }

/-- The service gives a tag out for what it stores. -/
def WireWorld.note (world : WireWorld Call) (target : String × String) (holdings : Holdings)
    (call : Call) (catalog : Catalog) : WireWorld Call :=
  { world with
    log := if (holdings.cells target).issued = (world.holdings.cells target).issued then world.log
      else world.log ++ [(call, catalog)] }

variable [DocumentCodec] [SigningCrates]

/-- One step of `commit_catalog`, with its requests as the client sends them. -/
def wireCommit (deployment : Deployment Call) (incoming : Call → Catalog) (world : WireWorld Call)
    (call : Call) (now : DateTime) (nonce : Nonce) (delivery : Delivery) (tag : EntityTag) :
    Option (WireWorld Call) :=
  let client := deployment.clients call
  let agent := network deployment.service delivery tag
  match world.calls call with
  | .reading =>
      match client.getSync agent now catalogKey world.holdings with
      | (holdings, fetched) => some (world.move holdings call
          (afterGet (fun catalog _ => .returned (.ok catalog)) fetched))
  | .loading attempt =>
      match client.getSync agent now catalogKey world.holdings with
      | (holdings, fetched) => some (world.move holdings call
          (afterGet (fun base etag => .merging attempt base etag) fetched))
  | .merging attempt base etag =>
      match mergeCatalogs base (incoming call) with
      | .ok merged => some (world.move world.holdings call (.pruning attempt merged etag))
      | .error error => some (world.move world.holdings call (.returned (.error error)))
  | .pruning attempt merged etag =>
      match CatalogCodec.encode nonce (pruneToCurrent merged) with
      | .ok body => some (world.move world.holdings call
          (.putting attempt (pruneToCurrent merged) body etag))
      | .error error => some (world.move world.holdings call (.returned (.error error)))
  | .putting attempt pruned body etag =>
      match client.putSync agent now catalogKey body (commitPrecondition etag) world.holdings with
      | (holdings, result) => some ((world.note deployment.catalog holdings call pruned).move
          holdings call (afterPut attempt pruned result))
  | .returned _ => none

def wireStep (deployment : Deployment Call) (incoming : Call → Catalog) (world : WireWorld Call) :
    WireAction Call → Option (WireWorld Call)
  | .commit call now nonce delivery tag =>
      wireCommit deployment incoming world call now nonce delivery tag
  | .other client operation now delivery tag =>
      some { world with holdings :=
        (client.perform (network deployment.service delivery tag) now operation world.holdings).1 }

def WireWorld.start (incoming : Call → Catalog) (holdings : Holdings) : WireWorld Call where
  holdings := holdings
  calls call := commitStart (incoming call)
  log := []

/-- Any interleaving of the calls with other requests, whatever becomes of the requests. -/
abbrev WireRun (deployment : Deployment Call) (incoming : Call → Catalog) (holdings : Holdings) :
    WireWorld Call → Prop :=
  Transition.Run (wireStep deployment incoming) (WireAllowed deployment)
    (WireWorld.start incoming holdings)

end Machine

section Spared

variable [DocumentCodec] [SigningCrates] {client : R2} {service : Service} {delivery : Delivery}
  {tag : EntityTag} {now : DateTime} {holdings : Holdings} {target : String × String}

omit [DocumentCodec] [SigningCrates] in
theorem Service.serve_cells {request : SentRequest}
    (spared : request.method = "GET" ∨ request.method = "HEAD" ∨
      readTarget service.endpoint request.url ≠ some target) :
    (service.serve tag holdings request).1.cells target = holdings.cells target := by
  unfold Service.serve
  cases read : readTarget service.endpoint request.url with
  | none => rfl
  | some found =>
      rcases spared with get | head | apart
      · simp [get]
      · simp [head]
      · have other : target ≠ found := fun same => apart (read.trans (congrArg some same.symm))
        simp only
        split
        · rfl
        · split
          · rfl
          · split
            · split
              · exact Function.update_of_ne other _ _
              · rfl
            · split
              · exact Function.update_of_ne other _ _
              · rfl

theorem Service.serve_spares (reaches : client.endpoint = service.endpoint)
    {operation : Operation} (spares : operation.Spares client target) :
    (service.serve tag holdings (client.send now operation)).1.cells target =
      holdings.cells target := by
  apply Service.serve_cells
  have apart : ∀ key, operation.key? = some key → (client.bucket, key) ≠ target →
      readTarget service.endpoint (client.send now operation).url ≠ some target := by
    intro key about other read
    rw [← reaches, readTarget_send client now about] at read
    split at read
    · cases read
    · exact other (Option.some_inj.mp read)
  cases operation with
  | get | listPage => exact .inl rfl
  | headEtag => exact .inr (.inl rfl)
  | put key => exact .inr (.inr (apart key rfl spares))
  | delete key => exact .inr (.inr (apart key rfl spares))

/-- A request reaches the service or not, whatever its sender is told. -/
theorem R2.perform_spares (reaches : client.endpoint = service.endpoint) {operation : Operation}
    (spares : operation.Spares client target) :
    (client.perform (network service delivery tag) now operation holdings).1.cells target =
      holdings.cells target := by
  have served : (service.serve tag holdings (client.send now operation)).1.cells target =
      holdings.cells target := Service.serve_spares reaches spares
  cases delivery with
  | unbuilt error => rfl
  | answered broken => exact served
  | lost failure =>
      cases told : failure.outcome <;>
        simp only [R2.perform, network, Delivery.build, Delivery.run, told]
  | unanswered failure =>
      cases told : failure.outcome <;>
        simpa only [R2.perform, network, Delivery.build, Delivery.run, told] using served

end Spared

section Matching

variable {Call : Type} {deployment : Deployment Call} {incoming : Call → Catalog}
  {holdings : Holdings} {world next : WireWorld Call} {reliable : CommitWorld Call Bytes}

/-- A reliable run that stands where the lossy one does, apart from calls that were told of a
failure. -/
structure Matches (deployment : Deployment Call) (world : WireWorld Call)
    (reliable : CommitWorld Call Bytes) : Prop where
  cell : reliable.cell = world.holdings.cells deployment.catalog
  log : reliable.log = world.log
  calls : ∀ call, world.calls call = reliable.calls call ∨
    ∃ message, world.calls call = .returned (.error (.msg message))

variable [DecidableEq Call]

/-- A call is told of a failure that it can do nothing about. -/
theorem Matches.stop (matching : Matches deployment world reliable) (call : Call)
    (message : String) :
    Matches deployment (world.move world.holdings call (.returned (.error (.msg message))))
      reliable where
  cell := matching.cell
  log := matching.log
  calls := by
    intro other
    by_cases same : other = call
    · subst other
      exact .inr ⟨message, by simp [WireWorld.move]⟩
    · simpa [WireWorld.move, same] using matching.calls other

theorem Matches.move (matching : Matches deployment world reliable) (call : Call)
    (phase : CommitPhase Bytes) :
    Matches deployment (world.move world.holdings call phase) (reliable.setPhase call phase) where
  cell := matching.cell
  log := matching.log
  calls := by
    intro other
    by_cases same : other = call
    · subst other
      exact .inl (by simp [WireWorld.move, CommitWorld.setPhase])
    · simpa [WireWorld.move, CommitWorld.setPhase, same] using matching.calls other

omit [DecidableEq Call] in
theorem WireWorld.note_same (world : WireWorld Call) (target : String × String) (call : Call)
    (catalog : Catalog) : world.note target world.holdings call catalog = world := by
  simp [WireWorld.note]

/-- The service stores a catalog, and its call is told so or not. -/
theorem Matches.write (matching : Matches deployment world reliable) {call : Call}
    {catalog : Catalog} {body : Bytes} {tag : EntityTag} {phase : CommitPhase Bytes}
    (told : phase = .returned (.ok catalog) ∨ ∃ message, phase = .returned (.error (.msg message))) :
    Matches deployment
      ((world.note deployment.catalog (world.holdings.write deployment.catalog body tag) call
        catalog).move (world.holdings.write deployment.catalog body tag) call phase)
      (reliable.write call catalog body tag) where
  cell := by
    simp [CommitWorld.write, WireWorld.move, Holdings.write, matching.cell]
  log := by
    have longer : ∀ issued : List ETag, tag.val :: issued ≠ issued :=
      fun issued same => absurd (congrArg List.length same) (by simp)
    simp [CommitWorld.write, WireWorld.move, WireWorld.note, Holdings.write, Cell.write, longer,
      matching.log]
  calls := by
    intro other
    by_cases same : other = call
    · subst other
      rcases told with rfl | ⟨message, rfl⟩
      · exact .inl (by simp [WireWorld.move, CommitWorld.write])
      · exact .inr ⟨message, by simp [WireWorld.move]⟩
    · simpa [WireWorld.move, WireWorld.note, CommitWorld.write, same] using matching.calls other

end Matching

section Steps

variable [HarnessNames] [CatalogCodec Bytes] [DocumentCodec] [SigningCrates] {Call : Type}
  [DecidableEq Call] {deployment : Deployment Call} {incoming : Call → Catalog}
  {holdings : Holdings} {world next : WireWorld Call} {reliable : CommitWorld Call Bytes}
  {call : Call} {now : DateTime} {nonce : Nonce} {delivery : Delivery} {tag : EntityTag}

omit [DocumentCodec] [SigningCrates] in
/-- A read of a call, and what the call goes on with. -/
theorem commitStep_get (nonce : Nonce) (fresh : ETag) (idle : reliable.calls call = .reading) :
    commitStep incoming reliable ⟨call, nonce, fresh⟩ = some (reliable.setPhase call
      (afterGet (fun catalog _ => .returned (.ok catalog)) (.ok (getObject reliable.cell)))) := by
  simp only [commitStep, idle, afterGet]
  cases loadCatalog (getObject reliable.cell) <;> rfl

omit [DocumentCodec] [SigningCrates] in
theorem commitStep_load (nonce : Nonce) (fresh : ETag) {attempt : Nat}
    (idle : reliable.calls call = .loading attempt) :
    commitStep incoming reliable ⟨call, nonce, fresh⟩ = some (reliable.setPhase call
      (afterGet (fun base etag => .merging attempt base etag) (.ok (getObject reliable.cell)))) := by
  simp only [commitStep, idle, afterGet]
  cases loadCatalog (getObject reliable.cell) <;> rfl

omit [DocumentCodec] [SigningCrates] in
theorem commitStep_write (nonce : Nonce) {attempt : Nat} {pruned : Catalog} {body : Bytes}
    {etag : Option ETag} {fresh : ETag} (ready : reliable.calls call = .putting attempt pruned body etag)
    (holds : (commitPrecondition etag).guard.holds reliable.cell.content = true)
    (unused : fresh ∉ reliable.cell.issued) :
    commitStep incoming reliable ⟨call, nonce, fresh⟩ =
      some (reliable.write call pruned body fresh) := by
  simp only [commitStep, ready, holds, if_true, if_neg unused]

omit [DocumentCodec] [SigningCrates] in
theorem commitStep_conflict (nonce : Nonce) (fresh : ETag) {attempt : Nat} {pruned : Catalog}
    {body : Bytes} {etag : Option ETag}
    (ready : reliable.calls call = .putting attempt pruned body etag)
    (fails : (commitPrecondition etag).guard.holds reliable.cell.content = false) :
    commitStep incoming reliable ⟨call, nonce, fresh⟩ =
      some (reliable.setPhase call (afterPut attempt pruned (.error .precondition))) := by
  simp only [commitStep, ready, fails, if_false, Bool.false_eq_true, afterPut]
  split <;> rfl

/-- The two phases without a request: what the call goes on with depends on its phase alone. -/
theorem wireCommit_local (silent : (∃ attempt base etag, world.calls call = .merging attempt base etag) ∨
      ∃ attempt merged etag, world.calls call = .pruning attempt merged etag) :
    ∃ phase, wireCommit deployment incoming world call now nonce delivery tag =
        some (world.move world.holdings call phase) ∧
      ∀ (reliable : CommitWorld Call Bytes) (fresh : ETag),
        reliable.calls call = world.calls call →
          commitStep incoming reliable ⟨call, nonce, fresh⟩ =
            some (reliable.setPhase call phase) := by
  rcases silent with ⟨attempt, base, etag, phase⟩ | ⟨attempt, merged, etag, phase⟩
  · cases merge : mergeCatalogs base (incoming call) with
    | ok merged =>
        refine ⟨.pruning attempt merged etag, by simp only [wireCommit, phase, merge], ?_⟩
        intro reliable fresh here
        simp only [commitStep, here, phase, merge]
    | error error =>
        refine ⟨.returned (.error error), by simp only [wireCommit, phase, merge], ?_⟩
        intro reliable fresh here
        simp only [commitStep, here, phase, merge]
  · cases encoded : (CatalogCodec.encode nonce (pruneToCurrent merged) : Except Error Bytes) with
    | ok body =>
        refine ⟨.putting attempt (pruneToCurrent merged) body etag,
          by simp only [wireCommit, phase, encoded], ?_⟩
        intro reliable fresh here
        simp only [commitStep, here, phase, encoded]
    | error error =>
        refine ⟨.returned (.error error), by simp only [wireCommit, phase, encoded], ?_⟩
        intro reliable fresh here
        simp only [commitStep, here, phase, encoded]

omit [HarnessNames] [CatalogCodec Bytes] [DocumentCodec] [SigningCrates] [DecidableEq Call] in
theorem Deployment.catalog_eq (deployment : Deployment Call) (call : Call) :
    ((deployment.clients call).bucket, catalogKey) = deployment.catalog := by
  rw [deployment.shares call]
  rfl

omit [DocumentCodec] [SigningCrates] in
/-- The condition of a PUT names a tag that was given out for the catalog. -/
theorem CommitRun.condition_named {initial : Cell Bytes ETag}
    (run : CommitRun incoming initial reliable) {attempt : Nat} {pruned : Catalog} {body : Bytes}
    {etag : Option ETag} (ready : reliable.calls call = .putting attempt pruned body etag)
    (named : "*" ∉ reliable.cell.issued) : commitPrecondition etag ≠ .ifMatch "*" := by
  intro star
  have known := run.invariant.phases call
  rw [ready] at known
  obtain ⟨seen, base, snapshot, -⟩ := known
  exact named (snapshot.issued "*" (by rw [star]; rfl))

/-- A step of a call is a step of the reliable call, or the end of a call that was told of a
failure before or after the service stored its catalog. -/
theorem Matches.commit (matching : Matches deployment world reliable)
    (run : CommitRun incoming (holdings.cells deployment.catalog) reliable)
    (fresh : tag.val ∉ (world.holdings.cells deployment.catalog).issued)
    (taken : wireCommit deployment incoming world call now nonce delivery tag = some next) :
    ∃ later, CommitRun incoming (holdings.cells deployment.catalog) later ∧
      Matches deployment next later := by
  have key : catalogKey.isEmpty = false := by decide
  have running : (∀ result, world.calls call ≠ .returned result) →
      reliable.calls call = world.calls call := fun active =>
    ((matching.calls call).resolve_right fun ⟨_, stopped⟩ => active _ stopped).symm
  cases phase : world.calls call with
  | reading =>
      have here : reliable.calls call = .reading := (running (by simp [phase])).trans phase
      simp only [wireCommit, phase] at taken
      rcases R2.getSync_network (deployment.reaches call) key with got | ⟨message, failed⟩
      · rw [got, deployment.catalog_eq, ← matching.cell] at taken
        cases taken
        exact ⟨_, run.tail trivial (commitStep_get nonce tag.val here),
          matching.move call _⟩
      · rw [failed] at taken
        cases taken
        exact ⟨reliable, run, matching.stop call message⟩
  | loading attempt =>
      have here : reliable.calls call = .loading attempt := (running (by simp [phase])).trans phase
      simp only [wireCommit, phase] at taken
      rcases R2.getSync_network (deployment.reaches call) key with got | ⟨message, failed⟩
      · rw [got, deployment.catalog_eq, ← matching.cell] at taken
        cases taken
        exact ⟨_, run.tail trivial (commitStep_load nonce tag.val here),
          matching.move call _⟩
      · rw [failed] at taken
        cases taken
        exact ⟨reliable, run, matching.stop call message⟩
  | merging attempt base etag =>
      obtain ⟨after, moved, reliably⟩ := wireCommit_local (.inl ⟨attempt, base, etag, phase⟩)
      cases moved.symm.trans taken
      exact ⟨_, run.tail trivial (reliably reliable tag.val (running (by simp [phase]))),
        matching.move call after⟩
  | pruning attempt merged etag =>
      obtain ⟨after, moved, reliably⟩ := wireCommit_local (.inr ⟨attempt, merged, etag, phase⟩)
      cases moved.symm.trans taken
      exact ⟨_, run.tail trivial (reliably reliable tag.val (running (by simp [phase]))),
        matching.move call after⟩
  | putting attempt pruned body etag =>
      have here : reliable.calls call = .putting attempt pruned body etag :=
        (running (by simp [phase])).trans phase
      have tagged : commitPrecondition etag ≠ .ifMatch "*" :=
        CommitRun.condition_named run here (matching.cell ▸ world.holdings.named deployment.catalog)
      have outcome : PutOutcome (commitPrecondition etag).guard _ world.holdings _
          ((deployment.clients call).putSync (network deployment.service delivery tag) now
            catalogKey body (commitPrecondition etag) world.holdings) :=
        R2.putSync_network (deployment.reaches call) key body tagged
      rw [deployment.catalog_eq, ← matching.cell] at outcome
      simp only [wireCommit, phase] at taken
      generalize (deployment.clients call).putSync (network deployment.service delivery tag) now
        catalogKey body (commitPrecondition etag) world.holdings = result at outcome taken
      have unused : tag.val ∉ reliable.cell.issued := matching.cell ▸ fresh
      cases outcome with
      | stored holds =>
          cases taken
          exact ⟨_, run.tail trivial (commitStep_write nonce here holds unused),
            matching.write (.inl rfl)⟩
      | refused fails =>
          simp only [WireWorld.note_same, Option.some.injEq] at taken
          subst taken
          exact ⟨_, run.tail trivial
            (commitStep_conflict nonce tag.val here fails),
            matching.move call _⟩
      | failed message =>
          simp only [WireWorld.note_same, Option.some.injEq] at taken
          subst taken
          exact ⟨reliable, run, matching.stop call message⟩
      | unconfirmed holds message =>
          cases taken
          exact ⟨_, run.tail trivial (commitStep_write nonce here holds unused),
            matching.write (.inr ⟨message, rfl⟩)⟩
  | returned result => simp [wireCommit, phase] at taken

theorem Matches.step (matching : Matches deployment world reliable)
    (run : CommitRun incoming (holdings.cells deployment.catalog) reliable)
    {action : WireAction Call} (allowed : WireAllowed deployment world action)
    (taken : wireStep deployment incoming world action = some next) :
    ∃ later, CommitRun incoming (holdings.cells deployment.catalog) later ∧
      Matches deployment next later := by
  cases action with
  | commit call now nonce delivery tag => exact matching.commit run allowed taken
  | other client operation now delivery tag =>
      cases taken
      exact ⟨reliable, run, matching.cell.trans (R2.perform_spares allowed.1 allowed.2).symm,
        matching.log, matching.calls⟩

theorem WireRun.matched (run : WireRun deployment incoming holdings world) :
    ∃ reliable, CommitRun incoming (holdings.cells deployment.catalog) reliable ∧
      Matches deployment world reliable := by
  refine Transition.Run.invariant run
    (fun world => ∃ reliable, CommitRun incoming (holdings.cells deployment.catalog) reliable ∧
      Matches deployment world reliable) ?_ ?_
  · exact ⟨CommitWorld.start incoming (holdings.cells deployment.catalog), .refl,
      rfl, rfl, fun _ => .inl rfl⟩
  · intro current action next known allowed taken
    obtain ⟨reliable, reached, matching⟩ := known
    exact matching.step reached allowed taken

end Steps

section Answered

variable [HarnessNames] [CatalogCodec Bytes] [DocumentCodec] [SigningCrates] {Call : Type}
  [DecidableEq Call] {deployment : Deployment Call} {incoming : Call → Catalog}
  {holdings : Holdings} {world : WireWorld Call} {reliable later : CommitWorld Call Bytes}
  {call : Call} {nonce : Nonce} {tag : EntityTag}

def WireWorld.archive (deployment : Deployment Call) (world : WireWorld Call) :
    CommitWorld Call Bytes where
  cell := world.holdings.cells deployment.catalog
  calls := world.calls
  log := world.log

omit [HarnessNames] [CatalogCodec Bytes] [DocumentCodec] [SigningCrates] in
theorem WireWorld.archive_write (world : WireWorld Call) (call : Call) (catalog : Catalog)
    (body : Bytes) (tag : EntityTag) :
    ((world.note deployment.catalog (world.holdings.write deployment.catalog body tag) call
      catalog).move (world.holdings.write deployment.catalog body tag) call
        (.returned (.ok catalog))).archive deployment =
      (world.archive deployment).write call catalog body tag := by
  simp [WireWorld.archive, WireWorld.move, WireWorld.note, CommitWorld.write, Holdings.write,
    Cell.write]

/-- Where its requests are answered a call does what the reliable call does. -/
theorem wireCommit_answered (now : DateTime)
    (named : ∀ attempt pruned body etag, world.calls call = .putting attempt pruned body etag →
      commitPrecondition etag ≠ .ifMatch "*")
    (taken : commitStep incoming (world.archive deployment) ⟨call, nonce, tag.val⟩ = some later) :
    ∃ next, wireCommit deployment incoming world call now nonce (.answered none) tag = some next ∧
      next.archive deployment = later := by
  have key : catalogKey.isEmpty = false := by decide
  have got : (deployment.clients call).getSync (network deployment.service (.answered none) tag)
      now catalogKey world.holdings =
        (world.holdings, .ok (getObject (world.archive deployment).cell)) := by
    rw [R2.getSync_answered (deployment.reaches call) key, deployment.catalog_eq]
    rfl
  cases phase : world.calls call with
  | reading =>
      rw [commitStep_get nonce tag.val (show (world.archive deployment).calls call = _ from phase)]
        at taken
      simp only [wireCommit, phase, got]
      exact ⟨_, rfl, Option.some_inj.mp taken⟩
  | loading attempt =>
      rw [commitStep_load nonce tag.val (show (world.archive deployment).calls call = _ from phase)]
        at taken
      simp only [wireCommit, phase, got]
      exact ⟨_, rfl, Option.some_inj.mp taken⟩
  | merging attempt base etag =>
      obtain ⟨after, moved, reliably⟩ := wireCommit_local (.inl ⟨attempt, base, etag, phase⟩)
      rw [reliably (world.archive deployment) tag.val rfl] at taken
      exact ⟨_, moved, Option.some_inj.mp taken⟩
  | pruning attempt merged etag =>
      obtain ⟨after, moved, reliably⟩ := wireCommit_local (.inr ⟨attempt, merged, etag, phase⟩)
      rw [reliably (world.archive deployment) tag.val rfl] at taken
      exact ⟨_, moved, Option.some_inj.mp taken⟩
  | putting attempt pruned body etag =>
      have here : (world.archive deployment).calls call = .putting attempt pruned body etag := phase
      have put : (deployment.clients call).putSync (network deployment.service (.answered none) tag)
          now catalogKey body (commitPrecondition etag) world.holdings = _ :=
        R2.putSync_answered (deployment.reaches call) key body
          (named attempt pruned body etag phase)
      rw [deployment.catalog_eq] at put
      simp only [wireCommit, phase, put]
      cases holds : (commitPrecondition etag).guard.holds
          (world.holdings.cells deployment.catalog).content with
      | true =>
          by_cases unused : tag.val ∈ (world.archive deployment).cell.issued
          · simp only [commitStep, here, if_pos unused] at taken
            split at taken
            · cases taken
            · rename_i fails
              exact absurd holds fails
          · rw [commitStep_write nonce here holds unused] at taken
            exact ⟨_, rfl, (world.archive_write call pruned body tag).trans
              (Option.some_inj.mp taken)⟩
      | false =>
          rw [commitStep_conflict nonce tag.val here holds] at taken
          refine ⟨_, rfl, Eq.trans ?_ (Option.some_inj.mp taken)⟩
          simp only [if_false, Bool.false_eq_true, WireWorld.note_same]
          rfl
  | returned result =>
      have here : (world.archive deployment).calls call = .returned result := phase
      simp [commitStep, here] at taken

omit [DocumentCodec] [SigningCrates] in
theorem Matches.named (matching : Matches deployment world reliable)
    (run : CommitRun incoming (holdings.cells deployment.catalog) reliable) (call : Call) :
    ∀ attempt pruned body etag, world.calls call = .putting attempt pruned body etag →
      commitPrecondition etag ≠ .ifMatch "*" := by
  intro attempt pruned body etag phase
  rcases matching.calls call with same | ⟨message, stopped⟩
  · exact CommitRun.condition_named run (same.symm.trans phase)
      (matching.cell ▸ world.holdings.named deployment.catalog)
  · rw [stopped] at phase
    cases phase

/-- Every reliable run, with new tags, is a run over the wire. -/
theorem WireRun.deliver (run : Transition.Run (commitStep incoming)
      (fun world action => action.etag ∉ world.cell.issued ∧ action.etag ≠ "*")
      (CommitWorld.start incoming (holdings.cells deployment.catalog)) reliable) :
    ∃ world, WireRun deployment incoming holdings world ∧ world.archive deployment = reliable := by
  induction run with
  | refl => exact ⟨WireWorld.start incoming holdings, .refl, rfl⟩
  | @tail current next action reached allowed taken ih =>
      obtain ⟨world, wired, rfl⟩ := ih
      obtain ⟨reliable, matched, matching⟩ := WireRun.matched wired
      obtain ⟨next, moved, same⟩ := @wireCommit_answered _ _ _ _ _ _ deployment incoming world _
        action.call action.nonce ⟨action.etag, allowed.2⟩ 0 (matching.named matched action.call) taken
      have permitted : WireAllowed deployment world (.commit action.call 0 action.nonce
          (.answered none) ⟨action.etag, allowed.2⟩) := allowed.1
      exact ⟨next, wired.tail permitted moved, same⟩

end Answered

section Statement

variable [HarnessNames] [CatalogCodec Bytes] [DocumentCodec] [SigningCrates] {Call : Type}
  [DecidableEq Call]

/-- The stored catalogs are those of calls that were applied one at a time. A call that returned
a catalog is among them, one that gave up on conflicts is not, and only one that was told of a
failure may be either. -/
structure SurvivesLoss (deployment : Deployment Call) (incoming : Call → Catalog)
    (initial : Option Bytes) (world : WireWorld Call) : Prop where
  untouched : world.log = [] → (world.holdings.cells deployment.catalog).value = initial
  serial : world.log ≠ [] → ∃ base, Reads initial base ∧
    serialCatalogs base (world.log.map fun write => incoming write.1) =
      .ok (world.log.map (·.2)) ∧
    (base :: world.log.map (·.2)).Pairwise Advances
  stored : ∀ write, world.log.getLast? = some write → ∃ body,
    (world.holdings.cells deployment.catalog).value = some body ∧
      CatalogCodec.decode body = .ok write.2
  once : (world.log.map (·.1)).Nodup
  returned : ∀ call catalog, world.calls call = .returned (.ok catalog) →
    (incoming call).sessions ≠ [] → (call, catalog) ∈ world.log
  logged : ∀ call catalog, (call, catalog) ∈ world.log →
    world.calls call = .returned (.ok catalog) ∨
      ∃ message, world.calls call = .returned (.error (.msg message))
  answered : ∀ call now nonce tag later,
    commitStep incoming (world.archive deployment) ⟨call, nonce, tag.val⟩ = some later →
      ∃ next, wireStep deployment incoming world (.commit call now nonce (.answered none) tag) =
        some next ∧ next.archive deployment = later

/-- Requests and answers that are lost leave commits serializable. -/
theorem commits_surviveLoss {deployment : Deployment Call} {incoming : Call → Catalog}
    {holdings : Holdings} {world : WireWorld Call}
    (run : WireRun deployment incoming holdings world) :
    SurvivesLoss deployment incoming (holdings.cells deployment.catalog).value world := by
  obtain ⟨reliable, matched, matching⟩ := WireRun.matched run
  have invariant := CommitRun.invariant matched
  have history := invariant.history
  unfold History at history
  rw [matching.cell, matching.log] at history
  refine ⟨?_, ?_, ?_, matching.log ▸ invariant.once, ?_, ?_, ?_⟩
  · intro empty
    rcases history with untouched | ⟨_, _, _, _, occupied, _⟩
    · exact untouched.2
    · exact absurd empty occupied
  · intro occupied
    rcases history with untouched | ⟨base, _, start, applied, _⟩
    · exact absurd untouched.1 occupied
    · exact ⟨base, start, applied, serialCatalogs_advances applied⟩
  · intro write last
    rw [← matching.cell]
    exact invariant.stored (matching.log.symm ▸ last)
  · intro call catalog finished submits
    rw [← matching.log]
    rcases matching.calls call with same | ⟨message, stopped⟩
    · exact invariant.returned call catalog (same.symm.trans finished) submits
    · rw [stopped] at finished
      cases finished
  · intro call catalog member
    rw [← matching.log] at member
    have finished := invariant.logged call catalog member
    exact (matching.calls call).imp_left fun same => same.trans finished
  · intro call now nonce tag later taken
    exact wireCommit_answered now (matching.named matched call) taken

end Statement

section Example

/-- Catalogs are stored by their place in a table, as so many bytes. -/
@[reducible] def CatalogCodec.numbered (catalogs : List Catalog) : CatalogCodec Bytes where
  encode _ catalog :=
    if catalog ∈ catalogs then .ok (List.replicate (catalogs.idxOf catalog) 0)
    else .error (.json "unknown catalog")
  decode body :=
    match catalogs[body.length]? with
    | some catalog => .ok catalog
    | none => .error (.crypto catalogKey)
  decode_encode := by
    intro _ catalog body encoded
    split at encoded
    · rename_i member
      cases encoded
      simp [List.getElem?_idxOf member]
    · cases encoded

attribute [local instance] HarnessNames.snakeCase

/-- What the first call stores, and what the second one makes of it. -/
def wireCatalogs : List Catalog :=
  match serialCatalogs Catalog.empty [raceIncoming false, raceIncoming true] with
  | .ok catalogs => catalogs
  | .error _ => []

@[reducible] def wireCodec : CatalogCodec Bytes := CatalogCodec.numbered wireCatalogs

attribute [local instance] wireCodec DocumentCodec.padded SigningCrates.short

def wireStatus (_ : String) : Nat := 200

theorem wireStatus_successful (method : String) :
    200 ≤ wireStatus method ∧ wireStatus method < 300 := by
  simp [wireStatus]

def wireDeployment : Deployment Bool where
  service := {
    endpoint := exampleClient.endpoint
    success := wireStatus
    wording := fun _ => .ok ""
    successful := wireStatus_successful }
  bucket := exampleClient.bucket
  clients _ := exampleClient
  reaches _ := rfl
  shares _ := rfl

def noHoldings : Holdings where
  cells _ := Cell.empty
  named _ := List.not_mem_nil

/-- The first call is answered throughout, the second one up to its PUT. -/
def answeredActions : List (CommitAction Bool) :=
  [false, false, false, false, true, true, true].zipIdx.map
    fun entry => ⟨entry.1, [], toString entry.2⟩

def timedOut : Failure where
  outcome := .error "timeout: global"
  unread := by
    intro answer told
    cases told

def answeredWorld : Option (CommitWorld Bool Bytes) :=
  Transition.execute (commitStep raceIncoming)
    (fun world action => action.etag ∉ world.cell.issued ∧ action.etag ≠ "*")
    (CommitWorld.start raceIncoming Cell.empty) answeredActions

def CommitPhase.willStore (content : Option (Bytes × ETag)) : CommitPhase Bytes → Bool
  | .putting attempt _ _ etag => attempt = 1 && (commitPrecondition etag).guard.holds content
  | _ => false

theorem CommitPhase.willStore_cases {content : Option (Bytes × ETag)} {phase : CommitPhase Bytes}
    (ready : phase.willStore content = true) : ∃ pruned body etag,
      phase = .putting 1 pruned body etag ∧
        (commitPrecondition etag).guard.holds content = true := by
  cases phase with
  | putting attempt pruned body etag =>
      obtain ⟨first, holds⟩ := Bool.and_eq_true_iff.mp ready
      rw [of_decide_eq_true first]
      exact ⟨pruned, body, etag, rfl, holds⟩
  | reading | loading | merging | pruning | returned => cases ready

/-- The second call is about to store its catalog over that of the first one. -/
theorem answered_finishes : ∃ world, answeredWorld = some world ∧
    ∃ pruned body etag, world.calls true = .putting 1 pruned body etag ∧
      (commitPrecondition etag).guard.holds world.cell.content = true ∧
      world.cell.issued = ["3"] ∧ world.log.map (·.1) = [false] := by
  have shape : answeredWorld.map (fun world =>
      ((world.calls true).willStore world.cell.content, world.cell.issued,
        world.log.map (·.1))) = some (true, ["3"], [false]) := by decide
  obtain ⟨world, finished, seen⟩ := Option.map_eq_some_iff.mp shape
  obtain ⟨ready, issued, log⟩ : (world.calls true).willStore world.cell.content = true ∧
      world.cell.issued = ["3"] ∧ world.log.map (·.1) = [false] := by
    simpa only [Prod.mk.injEq] using seen
  obtain ⟨pruned, body, etag, phase, holds⟩ := CommitPhase.willStore_cases ready
  exact ⟨world, finished, pruned, body, etag, phase, holds, issued, log⟩

/-- The service stores the catalog of the second call, which is told that it timed out. -/
theorem timedOut_writes {world : WireWorld Bool} {pruned : Catalog} {body : Bytes}
    {etag : Option ETag} {tag : EntityTag} (phase : world.calls true = .putting 1 pruned body etag)
    (tagged : commitPrecondition etag ≠ .ifMatch "*")
    (holds : (commitPrecondition etag).guard.holds
      (world.holdings.cells wireDeployment.catalog).content = true) :
    ∃ next message, wireStep wireDeployment raceIncoming world
        (.commit true 0 [] (.unanswered timedOut) tag) = some next ∧
      next.log = world.log ++ [(true, pruned)] ∧
      next.calls true = .returned (.error (.msg message)) := by
  have key : catalogKey.isEmpty = false := by decide
  have served : wireDeployment.service.serve tag world.holdings
      (exampleClient.send 0 (.put catalogKey body (commitPrecondition etag))) = _ :=
    Service.serve_put rfl key body tagged
  rw [show (exampleClient.bucket, catalogKey) = wireDeployment.catalog from rfl,
    if_pos holds] at served
  obtain ⟨message, put⟩ : ∃ message, (wireDeployment.clients true).putSync
      (network wireDeployment.service (.unanswered timedOut) tag) 0 catalogKey body
        (commitPrecondition etag) world.holdings =
      ((wireDeployment.service.serve tag world.holdings (exampleClient.send 0
        (.put catalogKey body (commitPrecondition etag)))).1, .error (.msg message)) := ⟨_, rfl⟩
  rw [served] at put
  have step : wireStep wireDeployment raceIncoming world
      (.commit true 0 [] (.unanswered timedOut) tag) =
        some ((world.note wireDeployment.catalog
          (world.holdings.write wireDeployment.catalog body tag) true pruned).move
            (world.holdings.write wireDeployment.catalog body tag) true
              (.returned (.error (.msg message)))) := by
    simp only [wireStep, wireCommit, phase, put, afterPut]
  refine ⟨_, message, step, ?_, ?_⟩
  · simp [WireWorld.move, WireWorld.note, Holdings.write, Cell.write]
  · simp [WireWorld.move]

theorem commits_surviveLoss_unanswered : ∃ world : WireWorld Bool,
    WireRun wireDeployment raceIncoming noHoldings world ∧
    world.log.map (·.1) = [false, true] ∧
    (∃ message, world.calls true = .returned (.error (.msg message))) ∧
    SurvivesLoss wireDeployment raceIncoming (noHoldings.cells wireDeployment.catalog).value
      world := by
  obtain ⟨reliable, finished, pruned, body, etag, phase, holds, issued, log⟩ := answered_finishes
  obtain ⟨world, run, same⟩ : ∃ world : WireWorld Bool,
      WireRun wireDeployment raceIncoming noHoldings world ∧
        world.archive wireDeployment = reliable :=
    WireRun.deliver (Transition.run_of_execute finished)
  obtain ⟨matched, reached, matching⟩ := WireRun.matched run
  have calls : world.calls = reliable.calls := congrArg CommitWorld.calls same
  have cell : world.holdings.cells wireDeployment.catalog = reliable.cell :=
    congrArg CommitWorld.cell same
  have logged : world.log = reliable.log := congrArg CommitWorld.log same
  have ready : world.calls true = .putting 1 pruned body etag := calls ▸ phase
  obtain ⟨next, message, step, later, told⟩ := @timedOut_writes world pruned body etag
    ⟨"7", by decide⟩ ready (matching.named reached true _ _ _ _ ready) (cell ▸ holds)
  have fresh : "7" ∉ (world.holdings.cells wireDeployment.catalog).issued := by
    rw [cell, issued]
    decide
  have allowed : WireAllowed wireDeployment world
      (.commit true 0 [] (.unanswered timedOut) ⟨"7", by decide⟩) := fresh
  have extended : WireRun wireDeployment raceIncoming noHoldings next := run.tail allowed step
  refine ⟨next, extended, ?_, ⟨message, told⟩, commits_surviveLoss extended⟩
  rw [later, logged, List.map_append, log]
  rfl

end Example

end AgentTranscript
