import AgentTranscript.Remote.Signing

/-!
Requests and answers of the client. The service reads a request back from its URL and its
headers, and the client reads an answer from its status.
-/

set_option autoImplicit false

namespace AgentTranscript

open VersionedCell

section Client

/-- What comes back for a request: a status, the ETag header where it is text, and the body,
read as bytes or as text. -/
structure Answer where
  status : Nat
  etag : Option ETag
  body : Except String Bytes
  text : Except String String

def Answer.response (answer : Answer) : Response :=
  ⟨answer.status, answer.text⟩

/-- An answer whose body breaks off where `broken` says so. -/
def Answer.brokenOff (answer : Answer) : Option String → Answer
  | none => answer
  | some error => { answer with body := .error error, text := .error error }

/-- The agent builds a request and runs it, which may change the state of the service. -/
structure Agent (σ : Type) where
  build : SentRequest → Except String Unit
  run : σ → SentRequest → σ × Except String Answer

def getAnswer (key : String) (answer : Answer) : Except Error (Option (Fetched Bytes)) :=
  if answer.response.isSuccess then
    match answer.body with
    | .error error => .error (.msg s!"reading `{key}`: {error}")
    | .ok body => .ok (some { body := body, etag := answer.etag })
  else if answer.status = 404 then .ok none
  else .error (responseError "getting" key answer.response)

def putAnswer (key : String) (answer : Answer) : Except Error Unit :=
  if answer.response.isSuccess then .ok ()
  else if answer.status = 412 then .error .precondition
  else .error (responseError "putting" key answer.response)

def headAnswer (key : String) (answer : Answer) : Except Error (Option ETag) :=
  if answer.response.isSuccess then .ok answer.etag
  else if answer.status = 404 then .ok none
  else .error (responseError "heading" key answer.response)

def deleteAnswer (key : String) (answer : Answer) : Except Error Unit :=
  if answer.response.isSuccess then .ok ()
  else .error (responseError "deleting" key answer.response)

variable [DocumentCodec] [SigningCrates] {σ α : Type}

/-- `R2::request`, with what the agent makes of it. -/
def R2.perform (client : R2) (agent : Agent σ) (now : DateTime) (operation : Operation)
    (state : σ) : σ × Except Error Answer :=
  let request := client.send now operation
  match agent.build request with
  | .error error => (state, .error (.msg error))
  | .ok _ =>
      match agent.run state request with
      | (next, .ok answer) => (next, .ok answer)
      | (next, .error error) =>
          let method := operation.method
          let uri := operation.uri client.bucket
          (next, .error (.msg s!"{method} {uri}: {error}"))

/-- One request, and what is read from its answer. -/
def R2.exchange (client : R2) (agent : Agent σ) (now : DateTime) (operation : Operation)
    (read : Answer → Except Error α) (state : σ) : σ × Except Error α :=
  match client.perform agent now operation state with
  | (next, .ok answer) => (next, read answer)
  | (next, .error error) => (next, .error error)

def R2.getSync (client : R2) (agent : Agent σ) (now : DateTime) (key : String) :
    σ → σ × Except Error (Option (Fetched Bytes)) :=
  client.exchange agent now (.get key) (getAnswer key)

def R2.putSync (client : R2) (agent : Agent σ) (now : DateTime) (key : String) (body : Bytes)
    (precondition : Precondition) : σ → σ × Except Error Unit :=
  client.exchange agent now (.put key body precondition) (putAnswer key)

def R2.headEtagSync (client : R2) (agent : Agent σ) (now : DateTime) (key : String) :
    σ → σ × Except Error (Option ETag) :=
  client.exchange agent now (.headEtag key) (headAnswer key)

def R2.deleteSync (client : R2) (agent : Agent σ) (now : DateTime) (key : String) :
    σ → σ × Except Error Unit :=
  client.exchange agent now (.delete key) (deleteAnswer key)

end Client

section Service

/-- A tag that no condition takes for its star. -/
abbrev EntityTag := { tag : ETag // tag ≠ "*" }

/-- The objects of all buckets. -/
structure Holdings where
  cells : String × String → Cell Bytes ETag
  named : ∀ target, "*" ∉ (cells target).issued

def Holdings.write (holdings : Holdings) (target : String × String) (body : Bytes)
    (tag : EntityTag) : Holdings where
  cells := Function.update holdings.cells target ((holdings.cells target).write body tag)
  named := by
    intro other
    by_cases same : other = target
    · subst other
      simp [Cell.write, tag.2.symm, holdings.named target]
    · simp [same, holdings.named other]

def Holdings.erase (holdings : Holdings) (target : String × String) : Holdings where
  cells := Function.update holdings.cells target
    { content := none, issued := (holdings.cells target).issued, tagged := by simp }
  named := by
    intro other
    by_cases same : other = target
    · subst other
      simp [holdings.named target]
    · simp [same, holdings.named other]

/-- The bucket and the key that a URL names, if it names an object. -/
def readTarget (endpoint url : String) : Option (String × String) := do
  let path ← stripPrefix url endpoint
  let rest ← stripPrefix path "/"
  let (bucket, key) ← splitOnce rest '/'
  let bucket ← percentDecode bucket
  let key ← percentDecode key
  if key.isEmpty then none else some (bucket, key)

/-- `If-Match` and `If-None-Match` of one tag or of the star. -/
def conditionHolds (headers : List (String × String)) (content : Option (Bytes × ETag)) : Bool :=
  (match headers.lookup "if-match" with
    | none => true
    | some tag => if tag = "*" then content.isSome else content.any fun stored => stored.2 = tag) &&
  (match headers.lookup "if-none-match" with
    | none => true
    | some tag => if tag = "*" then content.isNone
        else !content.any fun stored => stored.2 = tag)

/-- How a service words its answers to requests about one object. -/
structure Service where
  endpoint : String
  success : String → Nat
  wording : Nat → Except String String
  successful : ∀ method, 200 ≤ success method ∧ success method < 300

def Service.refuse (service : Service) (status : Nat) : Answer where
  status := status
  etag := none
  body := .ok []
  text := service.wording status

def Service.accept (service : Service) (method : String) (etag : Option ETag) (body : Bytes) :
    Answer where
  status := service.success method
  etag := etag
  body := .ok body
  text := service.wording (service.success method)

/-- One request about an object; `tag` is for what it writes. -/
def Service.serve (service : Service) (tag : EntityTag) (holdings : Holdings)
    (request : SentRequest) : Holdings × Answer :=
  match readTarget service.endpoint request.url with
  | none => (holdings, service.refuse 400)
  | some target =>
      let content := (holdings.cells target).content
      if request.method = "GET" then
        (holdings, content.elim (service.refuse 404)
          fun stored => service.accept "GET" (some stored.2) stored.1)
      else if request.method = "HEAD" then
        (holdings, content.elim (service.refuse 404)
          fun stored => service.accept "HEAD" (some stored.2) [])
      else if request.method = "PUT" then
        if conditionHolds request.headers content then
          (holdings.write target (request.body.getD []) tag,
            service.accept "PUT" (some tag.val) [])
        else (holdings, service.refuse 412)
      else if request.method = "DELETE" then
        (holdings.erase target, service.accept "DELETE" none [])
      else (holdings, service.refuse 405)

end Service

section Reading

variable [DocumentCodec] [SigningCrates]

/-- The object that an operation is about. -/
def Operation.key? : Operation → Option String
  | .get key => some key
  | .put key _ _ => some key
  | .headEtag key => some key
  | .listPage _ _ => none
  | .delete key => some key

omit [DocumentCodec] [SigningCrates] in
theorem readTarget_objectUri (endpoint bucket key : String) :
    readTarget endpoint (endpoint ++ objectUri bucket key) =
      if key.isEmpty then none else some (bucket, key) := by
  have path : stripPrefix (endpoint ++ objectUri bucket key) endpoint =
      some (objectUri bucket key) := stripPrefix_eq_some_iff.mpr rfl
  have rest : stripPrefix (objectUri bucket key) "/" =
      some (Sigv4.encode bucket false ++ String.singleton '/' ++ Sigv4.encode key true) := by
    apply stripPrefix_eq_some_iff.mpr
    have slash : "/" = String.singleton '/' := by simp
    rw [objectUri, ← slash, String.append_assoc, String.append_assoc, String.append_assoc]
  have parts : splitOnce (Sigv4.encode bucket false ++ String.singleton '/' ++
      Sigv4.encode key true) '/' = some (Sigv4.encode bucket false, Sigv4.encode key true) :=
    splitOnce_append (slash_not_mem_sigv4 bucket)
  simp only [readTarget, path, rest, parts, percentDecode_sigv4, Option.bind_eq_bind,
    Option.bind_some]

theorem R2.send_url (client : R2) (now : DateTime) {operation : Operation} {key : String}
    (about : operation.key? = some key) :
    (client.send now operation).url = client.endpoint ++ objectUri client.bucket key := by
  cases operation with
  | listPage => cases about
  | get | put | headEtag | delete =>
      cases about
      simp [R2.send, R2.request]

/-- The service reads from a request the object that the client means. -/
theorem readTarget_send (client : R2) (now : DateTime) {operation : Operation} {key : String}
    (about : operation.key? = some key) :
    readTarget client.endpoint (client.send now operation).url =
      if key.isEmpty then none else some (client.bucket, key) := by
  rw [client.send_url now about, readTarget_objectUri]

theorem R2.send_method (client : R2) (now : DateTime) (operation : Operation) :
    (client.send now operation).method = operation.method := by
  cases operation <;> rfl

theorem R2.put_body (client : R2) (now : DateTime) (key : String) (body : Bytes)
    (precondition : Precondition) :
    (client.send now (.put key body precondition)).body = some body :=
  rfl

/-- The service reads from the headers of a PUT the condition that the client means. -/
theorem conditionHolds_send (client : R2) (now : DateTime) (key : String) (body : Bytes)
    {precondition : Precondition} (named : precondition ≠ .ifMatch "*")
    (content : Option (Bytes × ETag)) :
    conditionHolds (client.send now (.put key body precondition)).headers content =
      precondition.guard.holds content := by
  cases precondition with
  | none => simp [conditionHolds, R2.send, R2.request, Precondition.extra, Precondition.guard,
      Guard.holds, List.lookup_cons]
  | ifMatch tag =>
      have other : tag ≠ "*" := fun star => named (congrArg Precondition.ifMatch star)
      simp [conditionHolds, R2.send, R2.request, Precondition.extra, Precondition.guard,
        Guard.holds, List.lookup_cons, other]
  | ifNoneMatchStar => simp [conditionHolds, R2.send, R2.request, Precondition.extra,
      Precondition.guard, Guard.holds, List.lookup_cons]

end Reading

end AgentTranscript
