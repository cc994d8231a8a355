import AgentTranscript.Remote.CommitProperties
import AgentTranscript.Remote.Exchange

/-!
`commit_catalog` over a network that loses requests and answers. A call that is told of a
failure may have stored its catalog, so its steps are matched with those of calls whose
requests are all answered.
-/

set_option autoImplicit false

namespace AgentTranscript

open Loop VersionedCell

section Network

/-- An answer that no request of the client gives a meaning to. -/
def Answer.Unread (answer : Answer) : Prop :=
  answer.response.isSuccess = false ∧ answer.status ≠ 404 ∧ answer.status ≠ 412

/-- What a client is told when a request or its answer is lost. -/
structure Failure where
  outcome : Except String Answer
  unread : ∀ answer, outcome = .ok answer → answer.Unread

/-- How a request fares. It is `lost` on the way there and `unanswered` on the way back. -/
inductive Delivery where
  | unbuilt (error : String)
  | lost (failure : Failure)
  | unanswered (failure : Failure)
  | answered (broken : Option String)

def Delivery.build : Delivery → Except String Unit
  | .unbuilt error => .error error
  | _ => .ok ()

def Delivery.run (service : Service) (tag : EntityTag) (holdings : Holdings)
    (request : SentRequest) : Delivery → Holdings × Except String Answer
  | .unbuilt error => (holdings, .error error)
  | .lost failure => (holdings, failure.outcome)
  | .unanswered failure => ((service.serve tag holdings request).1, failure.outcome)
  | .answered broken => ((service.serve tag holdings request).1,
      .ok ((service.serve tag holdings request).2.brokenOff broken))

def network (service : Service) (delivery : Delivery) (tag : EntityTag) : Agent Holdings where
  build _ := delivery.build
  run holdings request := delivery.run service tag holdings request

theorem Answer.brokenOff_status (answer : Answer) (broken : Option String) :
    (answer.brokenOff broken).status = answer.status := by
  cases broken <;> rfl

theorem Answer.isSuccess_iff (answer : Answer) :
    answer.response.isSuccess = true ↔ 200 ≤ answer.status ∧ answer.status < 300 := by
  unfold Answer.response Response.isSuccess
  rw [Bool.and_eq_true, decide_eq_true_iff, decide_eq_true_iff]

theorem Service.accept_isSuccess (service : Service) (method : String) (etag : Option ETag)
    (body : Bytes) (broken : Option String) :
    ((service.accept method etag body).brokenOff broken).response.isSuccess = true := by
  apply (Answer.isSuccess_iff _).mpr
  rw [Answer.brokenOff_status]
  exact service.successful method

theorem Service.refuse_isSuccess (service : Service) {status : Nat} (above : 300 ≤ status)
    (broken : Option String) :
    ((service.refuse status).brokenOff broken).response.isSuccess = false := by
  apply Bool.eq_false_iff.mpr
  intro success
  have below := ((Answer.isSuccess_iff _).mp success).2
  rw [Answer.brokenOff_status] at below
  exact absurd above (Nat.not_le_of_lt below)

theorem Service.refuse_status (service : Service) (status : Nat) (broken : Option String) :
    ((service.refuse status).brokenOff broken).status = status := by
  cases broken <;> rfl

theorem getAnswer_unread (key : String) (answer : Answer) (unread : answer.Unread) :
    ∃ message, getAnswer key answer = .error (.msg message) := by
  obtain ⟨failed, found, -⟩ := unread
  simp only [getAnswer, failed, found, if_false, Bool.false_eq_true]
  exact ⟨_, rfl⟩

theorem putAnswer_unread (key : String) (answer : Answer) (unread : answer.Unread) :
    ∃ message, putAnswer key answer = .error (.msg message) := by
  obtain ⟨failed, -, met⟩ := unread
  simp only [putAnswer, failed, met, if_false, Bool.false_eq_true]
  exact ⟨_, rfl⟩

theorem headAnswer_unread (key : String) (answer : Answer) (unread : answer.Unread) :
    ∃ message, headAnswer key answer = .error (.msg message) := by
  obtain ⟨failed, found, -⟩ := unread
  simp only [headAnswer, failed, found, if_false, Bool.false_eq_true]
  exact ⟨_, rfl⟩

theorem deleteAnswer_unread (key : String) (answer : Answer) (unread : answer.Unread) :
    ∃ message, deleteAnswer key answer = .error (.msg message) := by
  simp only [deleteAnswer, unread.1, if_false, Bool.false_eq_true]
  exact ⟨_, rfl⟩

end Network

section Requests

variable [DocumentCodec] [SigningCrates] {client : R2} {service : Service} {delivery : Delivery}
  {tag : EntityTag} {now : DateTime} {holdings : Holdings} {key : String}

/-- What an exchange comes to: it fails, before or after the service, or the answer is read. -/
inductive Exchanged {α : Type} (served : Holdings × Answer) (read : Answer → Except Error α)
    (holdings : Holdings) : Holdings × Except Error α → Prop where
  | failed (message : String) : Exchanged served read holdings (holdings, .error (.msg message))
  | unconfirmed (message : String) :
      Exchanged served read holdings (served.1, .error (.msg message))
  | answered (broken : Option String) :
      Exchanged served read holdings (served.1, read (served.2.brokenOff broken))

theorem R2.exchange_network {α : Type} {read : Answer → Except Error α} (operation : Operation)
    (fails : ∀ answer : Answer, answer.Unread → ∃ message, read answer = .error (.msg message)) :
    Exchanged (service.serve tag holdings (client.send now operation)) read holdings
      (client.exchange (network service delivery tag) now operation read holdings) := by
  cases delivery with
  | unbuilt error => exact .failed error
  | answered broken => exact .answered broken
  | lost failure =>
      cases told : failure.outcome with
      | error error =>
          simp only [R2.exchange, R2.perform, network, Delivery.build, Delivery.run, told]
          exact .failed _
      | ok answer =>
          obtain ⟨message, shape⟩ := fails answer (failure.unread answer told)
          simp only [R2.exchange, R2.perform, network, Delivery.build, Delivery.run, told, shape]
          exact .failed message
  | unanswered failure =>
      cases told : failure.outcome with
      | error error =>
          simp only [R2.exchange, R2.perform, network, Delivery.build, Delivery.run, told]
          exact .unconfirmed _
      | ok answer =>
          obtain ⟨message, shape⟩ := fails answer (failure.unread answer told)
          simp only [R2.exchange, R2.perform, network, Delivery.build, Delivery.run, told, shape]
          exact .unconfirmed message

theorem Service.serve_object (reaches : client.endpoint = service.endpoint)
    (named : key.isEmpty = false) {operation : Operation} (about : operation.key? = some key) :
    readTarget service.endpoint (client.send now operation).url = some (client.bucket, key) := by
  rw [← reaches, readTarget_send client now about, named]
  rfl

theorem Service.serve_get (reaches : client.endpoint = service.endpoint)
    (named : key.isEmpty = false) : service.serve tag holdings (client.send now (.get key)) =
      (holdings, (holdings.cells (client.bucket, key)).content.elim (service.refuse 404)
        fun stored => service.accept "GET" (some stored.2) stored.1) := by
  have target : readTarget service.endpoint (client.send now (.get key)).url =
      some (client.bucket, key) := Service.serve_object reaches named rfl
  simp [Service.serve, target, R2.send_method, Operation.method]

omit [DocumentCodec] [SigningCrates] in
theorem getAnswer_served (key : String) (cell : Cell Bytes ETag) :
    getAnswer key (cell.content.elim (service.refuse 404)
      fun stored => service.accept "GET" (some stored.2) stored.1) = .ok (getObject cell) := by
  cases found : cell.content with
  | none =>
      have refused := service.refuse_isSuccess (show 300 ≤ 404 by decide) none
      have status := service.refuse_status 404 none
      rw [Answer.brokenOff] at refused status
      simp only [Option.elim_none, getAnswer, refused, status, getObject, found, if_true, if_false,
        Bool.false_eq_true]
      rfl
  | some stored =>
      have success := service.accept_isSuccess "GET" (some stored.2) stored.1 none
      rw [Answer.brokenOff] at success
      simp only [Option.elim_some, getAnswer, success, if_true, getObject, found]
      rfl

theorem R2.getSync_answered (reaches : client.endpoint = service.endpoint)
    (named : key.isEmpty = false) :
    client.getSync (network service (.answered none) tag) now key holdings =
      (holdings, .ok (getObject (holdings.cells (client.bucket, key)))) := by
  show ((service.serve tag holdings (client.send now (.get key))).1,
    getAnswer key (service.serve tag holdings (client.send now (.get key))).2) = _
  rw [Service.serve_get reaches named]
  exact congrArg (Prod.mk holdings) (getAnswer_served key _)

/-- A GET over the network reads the object or fails. -/
theorem R2.getSync_network (reaches : client.endpoint = service.endpoint)
    (named : key.isEmpty = false) :
    client.getSync (network service delivery tag) now key holdings =
        (holdings, .ok (getObject (holdings.cells (client.bucket, key)))) ∨
      ∃ message, client.getSync (network service delivery tag) now key holdings =
        (holdings, .error (.msg message)) := by
  have exchanged : Exchanged (service.serve tag holdings (client.send now (.get key)))
      (getAnswer key) holdings (client.exchange (network service delivery tag) now (.get key)
        (getAnswer key) holdings) := R2.exchange_network (.get key) (getAnswer_unread key)
  rw [Service.serve_get reaches named] at exchanged
  unfold R2.getSync
  generalize client.exchange (network service delivery tag) now (.get key) (getAnswer key)
    holdings = result at exchanged ⊢
  cases exchanged with
  | failed message => exact .inr ⟨message, rfl⟩
  | unconfirmed message => exact .inr ⟨message, rfl⟩
  | answered broken =>
      cases broken with
      | none => exact .inl (congrArg (Prod.mk holdings) (getAnswer_served key _))
      | some error =>
          -- Only the body of an object that is there has to be read.
          cases found : (holdings.cells (client.bucket, key)).content with
          | none =>
              refine .inl (congrArg (Prod.mk holdings) ?_)
              have refused := service.refuse_isSuccess (show 300 ≤ 404 by decide) (some error)
              simp only [Option.elim_none, getAnswer, refused, service.refuse_status, getObject,
                found, if_true, if_false, Bool.false_eq_true]
              rfl
          | some stored =>
              refine .inr ⟨s!"reading `{key}`: {error}", congrArg (Prod.mk holdings) ?_⟩
              have success := service.accept_isSuccess "GET" (some stored.2) stored.1 (some error)
              simp only [Option.elim_some, getAnswer, success, if_true]
              rfl

theorem Service.serve_put (reaches : client.endpoint = service.endpoint)
    (named : key.isEmpty = false) (body : Bytes) {precondition : Precondition}
    (tagged : precondition ≠ .ifMatch "*") :
    service.serve tag holdings (client.send now (.put key body precondition)) =
      if precondition.guard.holds (holdings.cells (client.bucket, key)).content then
        (holdings.write (client.bucket, key) body tag, service.accept "PUT" (some tag.val) [])
      else (holdings, service.refuse 412) := by
  have target : readTarget service.endpoint
      (client.send now (.put key body precondition)).url = some (client.bucket, key) :=
    Service.serve_object reaches named rfl
  have condition := conditionHolds_send client now key body tagged
    (holdings.cells (client.bucket, key)).content
  simp [Service.serve, target, R2.send_method, Operation.method, condition, R2.put_body]

omit [DocumentCodec] [SigningCrates] in
theorem putAnswer_accept (key : String) (etag : Option ETag) (broken : Option String) :
    putAnswer key ((service.accept "PUT" etag []).brokenOff broken) = .ok () := by
  simp only [putAnswer, service.accept_isSuccess, if_true]

omit [DocumentCodec] [SigningCrates] in
theorem putAnswer_refuse (key : String) (broken : Option String) :
    putAnswer key ((service.refuse 412).brokenOff broken) = .error .precondition := by
  have refused := service.refuse_isSuccess (show 300 ≤ 412 by decide) broken
  simp only [putAnswer, refused, service.refuse_status, if_true, if_false, Bool.false_eq_true]

theorem R2.putSync_answered (reaches : client.endpoint = service.endpoint)
    (named : key.isEmpty = false) (body : Bytes) {precondition : Precondition}
    (tagged : precondition ≠ .ifMatch "*") :
    client.putSync (network service (.answered none) tag) now key body precondition holdings =
      if precondition.guard.holds (holdings.cells (client.bucket, key)).content then
        (holdings.write (client.bucket, key) body tag, .ok ())
      else (holdings, .error .precondition) := by
  show ((service.serve tag holdings (client.send now (.put key body precondition))).1,
    putAnswer key (service.serve tag holdings (client.send now (.put key body precondition))).2) = _
  rw [Service.serve_put reaches named body tagged]
  split
  · exact congrArg (Prod.mk _) (putAnswer_accept key _ none)
  · exact congrArg (Prod.mk _) (putAnswer_refuse key none)

/-- What a PUT comes to; where it fails, the object may have been written. -/
inductive PutOutcome (guard : Guard ETag) (cell : Cell Bytes ETag) (holdings stored : Holdings) :
    Holdings × Except Error Unit → Prop where
  | stored (holds : guard.holds cell.content = true) :
      PutOutcome guard cell holdings stored (stored, .ok ())
  | refused (fails : guard.holds cell.content = false) :
      PutOutcome guard cell holdings stored (holdings, .error .precondition)
  | failed (message : String) :
      PutOutcome guard cell holdings stored (holdings, .error (.msg message))
  | unconfirmed (holds : guard.holds cell.content = true) (message : String) :
      PutOutcome guard cell holdings stored (stored, .error (.msg message))

theorem R2.putSync_network (reaches : client.endpoint = service.endpoint)
    (named : key.isEmpty = false) (body : Bytes) {precondition : Precondition}
    (tagged : precondition ≠ .ifMatch "*") :
    PutOutcome precondition.guard (holdings.cells (client.bucket, key)) holdings
      (holdings.write (client.bucket, key) body tag)
      (client.putSync (network service delivery tag) now key body precondition holdings) := by
  have exchanged : Exchanged
      (service.serve tag holdings (client.send now (.put key body precondition)))
      (putAnswer key) holdings (client.exchange (network service delivery tag) now
        (.put key body precondition) (putAnswer key) holdings) :=
    R2.exchange_network (.put key body precondition) (putAnswer_unread key)
  rw [Service.serve_put reaches named body tagged] at exchanged
  unfold R2.putSync
  generalize client.exchange (network service delivery tag) now (.put key body precondition)
    (putAnswer key) holdings = result at exchanged ⊢
  cases holds : precondition.guard.holds (holdings.cells (client.bucket, key)).content with
  | true =>
      rw [holds, if_pos rfl] at exchanged
      cases exchanged with
      | failed message => exact .failed message
      | unconfirmed message => exact .unconfirmed holds message
      | answered broken =>
          rw [putAnswer_accept]
          exact .stored holds
  | false =>
      rw [holds, if_neg Bool.false_ne_true] at exchanged
      cases exchanged with
      | failed message => exact .failed message
      | unconfirmed message => exact .failed message
      | answered broken =>
          rw [putAnswer_refuse]
          exact .refused holds

omit [DocumentCodec] [SigningCrates] in
theorem headAnswer_served (key : String) (cell : Cell Bytes ETag) (broken : Option String) :
    headAnswer key ((cell.content.elim (service.refuse 404)
      fun stored => service.accept "HEAD" (some stored.2) []).brokenOff broken) =
        .ok (cell.content.map Prod.snd) := by
  cases found : cell.content with
  | none =>
      have refused := service.refuse_isSuccess (show 300 ≤ 404 by decide) broken
      simp only [Option.elim_none, headAnswer, refused, service.refuse_status, Option.map_none,
        if_true, if_false, Bool.false_eq_true]
  | some stored =>
      simp only [Option.elim_some, headAnswer, service.accept_isSuccess, if_true, Option.map_some]
      cases broken <;> rfl

/-- A HEAD over the network finds the tag of the object or fails. -/
theorem R2.headEtagSync_network (reaches : client.endpoint = service.endpoint)
    (named : key.isEmpty = false) :
    client.headEtagSync (network service delivery tag) now key holdings =
        (holdings, .ok ((holdings.cells (client.bucket, key)).content.map Prod.snd)) ∨
      ∃ message, client.headEtagSync (network service delivery tag) now key holdings =
        (holdings, .error (.msg message)) := by
  have target : readTarget service.endpoint (client.send now (.headEtag key)).url =
      some (client.bucket, key) := Service.serve_object reaches named rfl
  have served : service.serve tag holdings (client.send now (.headEtag key)) =
      (holdings, (holdings.cells (client.bucket, key)).content.elim (service.refuse 404)
        fun stored => service.accept "HEAD" (some stored.2) []) := by
    simp [Service.serve, target, R2.send_method, Operation.method]
  have exchanged : Exchanged (service.serve tag holdings (client.send now (.headEtag key)))
      (headAnswer key) holdings (client.exchange (network service delivery tag) now
        (.headEtag key) (headAnswer key) holdings) :=
    R2.exchange_network (.headEtag key) (headAnswer_unread key)
  rw [served] at exchanged
  unfold R2.headEtagSync
  generalize client.exchange (network service delivery tag) now (.headEtag key) (headAnswer key)
    holdings = result at exchanged ⊢
  cases exchanged with
  | failed message => exact .inr ⟨message, rfl⟩
  | unconfirmed message => exact .inr ⟨message, rfl⟩
  | answered broken => exact .inl (congrArg (Prod.mk holdings) (headAnswer_served key _ broken))

/-- A DELETE over the network that fails may have removed the object. -/
theorem R2.deleteSync_network (reaches : client.endpoint = service.endpoint)
    (named : key.isEmpty = false) :
    client.deleteSync (network service delivery tag) now key holdings =
        (holdings.erase (client.bucket, key), .ok ()) ∨
      ∃ left message, (left = holdings ∨ left = holdings.erase (client.bucket, key)) ∧
        client.deleteSync (network service delivery tag) now key holdings =
          (left, .error (.msg message)) := by
  have target : readTarget service.endpoint (client.send now (.delete key)).url =
      some (client.bucket, key) := Service.serve_object reaches named rfl
  have served : service.serve tag holdings (client.send now (.delete key)) =
      (holdings.erase (client.bucket, key), service.accept "DELETE" none []) := by
    simp [Service.serve, target, R2.send_method, Operation.method]
  have exchanged : Exchanged (service.serve tag holdings (client.send now (.delete key)))
      (deleteAnswer key) holdings (client.exchange (network service delivery tag) now
        (.delete key) (deleteAnswer key) holdings) :=
    R2.exchange_network (.delete key) (deleteAnswer_unread key)
  rw [served] at exchanged
  unfold R2.deleteSync
  generalize client.exchange (network service delivery tag) now (.delete key) (deleteAnswer key)
    holdings = result at exchanged ⊢
  cases exchanged with
  | failed message => exact .inr ⟨holdings, message, .inl rfl, rfl⟩
  | unconfirmed message => exact .inr ⟨_, message, .inr rfl, rfl⟩
  | answered broken =>
      refine .inl (congrArg (Prod.mk _) ?_)
      simp only [deleteAnswer, service.accept_isSuccess, if_true]

end Requests

end AgentTranscript
