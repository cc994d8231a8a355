import AgentTranscript.Remote.Paging
import AgentTranscript.Remote.Store

/-!
Signed requests. What the signature of a request covers is read off the texts that are
hashed for it.
-/

set_option autoImplicit false

namespace AgentTranscript

section Definitions

/-- HMAC-SHA256, and a time as chrono formats it by `%Y%m%dT%H%M%SZ` and by `%Y%m%d`. -/
class SigningCrates where
  hmacSha256 : Bytes → Bytes → Bytes
  stamp : DateTime → String
  day : DateTime → String
  hmacSha256_length : ∀ key data, (hmacSha256 key data).length = 32
  stamp_oneLine : ∀ now, '\n' ∉ (stamp now).toList
  day_oneLine : ∀ now, '\n' ∉ (day now).toList

/-- `hex::encode`. -/
def hexEncode (bytes : Bytes) : String :=
  String.ofList (bytes.flatMap fun byte =>
    [Percent.hexDigit false (byte.toNat / 16), Percent.hexDigit false (byte.toNat % 16)])

structure Signed where
  date : String
  payloadHash : String
  authorization : String
  deriving DecidableEq, Repr

def canonicalHeaders (headers : List (String × String)) : String :=
  String.join (headers.map fun header => header.1 ++ ":" ++ trim header.2 ++ "\n")

def signedHeaders (headers : List (String × String)) : String :=
  ";".intercalate (headers.map (·.1))

def canonicalRequest (method uri query : String) (headers : List (String × String))
    (payloadHash : String) : String :=
  method ++ "\n" ++ uri ++ "\n" ++ query ++ "\n" ++ canonicalHeaders headers ++ "\n" ++
    signedHeaders headers ++ "\n" ++ payloadHash

def credentialScope (day : String) : String :=
  day ++ "/auto/s3/aws4_request"

def stringToSign (stamp day requestHash : String) : String :=
  "AWS4-HMAC-SHA256\n" ++ stamp ++ "\n" ++ credentialScope day ++ "\n" ++ requestHash

variable [DocumentCodec] [SigningCrates]

def Sigv4.hmac (key : Bytes) (data : String) : Bytes :=
  SigningCrates.hmacSha256 key (asBytes data)

def signingKey (secretAccessKey day : String) : Bytes :=
  Sigv4.hmac (Sigv4.hmac (Sigv4.hmac (Sigv4.hmac (asBytes ("AWS4" ++ secretAccessKey)) day)
    "auto") "s3") "aws4_request"

/-- The headers that are signed, in the order of their names. -/
def headersToSign (host date payloadHash : String) (extraHeaders : List (String × String)) :
    List (String × String) :=
  ([("host", host), ("x-amz-content-sha256", payloadHash), ("x-amz-date", date)] ++
    extraHeaders).insertionSort fun left right => left.1 ≤ right.1

def sign (accessKeyId secretAccessKey method host uri query : String)
    (extraHeaders : List (String × String)) (payload : Bytes) (now : DateTime) : Signed :=
  let date := SigningCrates.stamp now
  let scopeDate := SigningCrates.day now
  let payloadHash := DocumentCodec.sha256Hex payload
  let headers := headersToSign host date payloadHash extraHeaders
  let request := canonicalRequest method uri query headers payloadHash
  let text := stringToSign date scopeDate (DocumentCodec.sha256Hex (asBytes request))
  let signature := hexEncode (Sigv4.hmac (signingKey secretAccessKey scopeDate) text)
  { date := date
    payloadHash := payloadHash
    authorization := "AWS4-HMAC-SHA256 Credential=" ++ accessKeyId ++ "/" ++
      credentialScope scopeDate ++ ", SignedHeaders=" ++ signedHeaders headers ++
      ", Signature=" ++ signature }

structure R2 where
  endpoint : String
  host : String
  bucket : String
  accessKeyId : String
  secretAccessKey : String
  deriving DecidableEq, Repr

/-- A request as it is handed to the agent. -/
structure SentRequest where
  method : String
  url : String
  headers : List (String × String)
  body : Option Bytes
  deriving DecidableEq, Repr

def R2.request (client : R2) (method uri query : String) (extra : List (String × String))
    (body : Option Bytes) (now : DateTime) : SentRequest :=
  let signed := sign client.accessKeyId client.secretAccessKey method client.host uri query extra
    (body.getD []) now
  { method := method
    url := client.endpoint ++ uri ++ (if query.isEmpty then "" else "?" ++ query)
    headers := [("x-amz-date", signed.date), ("x-amz-content-sha256", signed.payloadHash)] ++
      extra ++ [("authorization", signed.authorization)]
    body := body }

/-- The requests of the client. -/
inductive Operation where
  | get (key : String)
  | put (key : String) (body : Bytes) (precondition : Precondition)
  | headEtag (key : String)
  | listPage (listed : String) (token : Option String)
  | delete (key : String)
  deriving DecidableEq, Repr

def Precondition.extra : Precondition → List (String × String)
  | .none => []
  | .ifMatch etag => [("if-match", etag)]
  | .ifNoneMatchStar => [("if-none-match", "*")]

def bucketUri (bucket : String) : String :=
  "/" ++ Sigv4.encode bucket false

def R2.send (client : R2) (now : DateTime) : Operation → SentRequest
  | .get key => client.request "GET" (objectUri client.bucket key) "" [] none now
  | .put key body precondition =>
      client.request "PUT" (objectUri client.bucket key) "" precondition.extra (some body) now
  | .headEtag key => client.request "HEAD" (objectUri client.bucket key) "" [] none now
  | .listPage listed token =>
      client.request "GET" (bucketUri client.bucket) (pageQuery listed token) [] none now
  | .delete key => client.request "DELETE" (objectUri client.bucket key) "" [] none now

end Definitions

section Texts

theorem hexEncode_injective : Function.Injective hexEncode := by
  intro left right same
  have digits : ∀ byte other : UInt8,
      [Percent.hexDigit false (byte.toNat / 16), Percent.hexDigit false (byte.toNat % 16)] =
        [Percent.hexDigit false (other.toNat / 16), Percent.hexDigit false (other.toNat % 16)] →
        byte = other := by
    intro byte other pair
    have high := congrArg Percent.hexValue (List.cons_eq_cons.mp pair).1
    have low := congrArg Percent.hexValue (List.cons_eq_cons.mp (List.cons_eq_cons.mp pair).2).1
    have small := byte.toNat_lt
    have less := other.toNat_lt
    rw [Percent.hexValue_hexDigit (by omega), Percent.hexValue_hexDigit (by omega)] at high low
    have first := Option.some.inj high
    have second := Option.some.inj low
    apply UInt8.toNat_inj.mp
    omega
  have chars := String.ofList_injective same
  induction left generalizing right with
  | nil =>
      cases right with
      | nil => rfl
      | cons other rest => cases chars
  | cons byte left ih =>
      cases right with
      | nil => cases chars
      | cons other right =>
          rw [List.flatMap_cons, List.flatMap_cons] at chars
          obtain ⟨first, rest⟩ := List.append_inj chars rfl
          rw [digits byte other first, ih (congrArg String.ofList rest) rest]

theorem hexEncode_length (bytes : Bytes) : (hexEncode bytes).length = 2 * bytes.length := by
  rw [hexEncode, String.length_ofList, List.length_flatMap]
  simp [Nat.mul_comm]

def OneLine (text : String) : Prop :=
  '\n' ∉ text.toList

/-- What HTTP takes for a header. -/
structure PlainHeader (header : String × String) : Prop where
  name : OneLine header.1
  noColon : ':' ∉ header.1.toList
  value : OneLine (trim header.2)

def headerLine (header : String × String) : List Char :=
  header.1.toList ++ ':' :: (trim header.2).toList

/-- A header as it is signed. -/
def trimmed (header : String × String) : String × String :=
  (header.1, trim header.2)

variable {headers others : List (String × String)}

theorem toList_canonicalHeaders (headers : List (String × String)) :
    (canonicalHeaders headers).toList = Delimited.terminated '\n' (headers.map headerLine) := by
  have colon : ":".toList = [':'] := by simp
  have line : "\n".toList = ['\n'] := by simp
  induction headers with
  | nil => rfl
  | cons header rest ih =>
      rw [canonicalHeaders, List.map_cons, String.join_cons, String.toList_append]
      change _ ++ (canonicalHeaders rest).toList = _
      rw [ih, String.toList_append, String.toList_append, String.toList_append, colon, line]
      simp [Delimited.terminated, headerLine]

theorem headerLine_oneLine {header : String × String} (plain : PlainHeader header) :
    '\n' ∉ headerLine header := by
  intro member
  rcases List.mem_append.mp member with name | value
  · exact plain.name name
  · rcases List.mem_cons.mp value with wrong | value
    · cases wrong
    · exact plain.value value

theorem canonicalHeaders_inj (plain : ∀ header ∈ headers, PlainHeader header)
    (other : ∀ header ∈ others, PlainHeader header)
    (same : canonicalHeaders headers = canonicalHeaders others) :
    headers.map trimmed = others.map trimmed := by
  have lines : headers.map headerLine = others.map headerLine := by
    have chars := congrArg String.toList same
    rw [toList_canonicalHeaders, toList_canonicalHeaders] at chars
    refine Delimited.terminated_inj ?_ ?_ chars
    · intro line member
      obtain ⟨header, among, rfl⟩ := List.mem_map.mp member
      exact headerLine_oneLine (plain header among)
    · intro line member
      obtain ⟨header, among, rfl⟩ := List.mem_map.mp member
      exact headerLine_oneLine (other header among)
  clear same
  induction headers generalizing others with
  | nil =>
      cases others with
      | nil => rfl
      | cons => cases lines
  | cons first headers ih =>
      cases others with
      | nil => cases lines
      | cons second others =>
          obtain ⟨line, rest⟩ := List.cons_eq_cons.mp lines
          obtain ⟨name, value⟩ := Delimited.first_inj (plain first List.mem_cons_self).noColon
            (other second List.mem_cons_self).noColon line
          have equal : trimmed first = trimmed second :=
            Prod.ext (String.toList_inj.mp name) (String.toList_inj.mp value)
          rw [List.map_cons, List.map_cons, equal,
            ih (fun header member => plain header (List.mem_cons_of_mem first member))
              (fun header member => other header (List.mem_cons_of_mem second member)) rest]

theorem oneLine_append {left right : String} (first : OneLine left) (second : OneLine right) :
    OneLine (left ++ right) := by
  unfold OneLine
  rw [String.toList_append, List.mem_append, not_or]
  exact ⟨first, second⟩

theorem oneLine_intercalate {separator : String} {texts : List String}
    (between : OneLine separator) (each : ∀ text ∈ texts, OneLine text) :
    OneLine (separator.intercalate texts) := by
  unfold OneLine
  rw [String.toList_intercalate]
  induction texts with
  | nil => exact List.not_mem_nil
  | cons first rest ih =>
      have later := ih fun text member => each text (List.mem_cons_of_mem first member)
      cases rest with
      | nil => simpa [List.intercalate_singleton, OneLine] using each first List.mem_cons_self
      | cons second others =>
          rw [List.map_cons, List.map_cons, List.intercalate_cons_cons, List.mem_append,
            List.mem_append, not_or, not_or]
          exact ⟨⟨each first List.mem_cons_self, between⟩, later⟩

theorem signedHeaders_oneLine (plain : ∀ header ∈ headers, PlainHeader header) :
    OneLine (signedHeaders headers) := by
  refine oneLine_intercalate (by simp [OneLine]) ?_
  intro name member
  obtain ⟨header, among, rfl⟩ := List.mem_map.mp member
  exact (plain header among).name

/-- The parts of a request that are hashed as one text. -/
structure PlainRequest (method uri query : String) (headers : List (String × String)) :
    Prop where
  method : OneLine method
  uri : OneLine uri
  query : OneLine query
  headers : ∀ header ∈ headers, PlainHeader header

theorem canonicalRequest_inj {method uri query hash another target asked digest : String}
    (plain : PlainRequest method uri query headers) (beside : PlainRequest another target asked others)
    (digits : OneLine hash) (figures : OneLine digest)
    (same : canonicalRequest method uri query headers hash =
      canonicalRequest another target asked others digest) :
    method = another ∧ uri = target ∧ query = asked ∧
      headers.map trimmed = others.map trimmed ∧ signedHeaders headers = signedHeaders others ∧
      hash = digest := by
  have line : "\n".toList = ['\n'] := by simp
  have chars := congrArg String.toList same
  simp only [canonicalRequest, String.toList_append, line, List.append_assoc,
    List.singleton_append] at chars
  obtain ⟨methods, chars⟩ := Delimited.first_inj plain.method beside.method chars
  obtain ⟨uris, chars⟩ := Delimited.first_inj plain.uri beside.uri chars
  obtain ⟨queries, chars⟩ := Delimited.first_inj plain.query beside.query chars
  -- The block of headers has lines of its own, so the rest is read from its end.
  have ends : ((canonicalHeaders headers).toList ++ '\n' :: (signedHeaders headers).toList) ++
      '\n' :: hash.toList = ((canonicalHeaders others).toList ++
        '\n' :: (signedHeaders others).toList) ++ '\n' :: digest.toList := by
    rw [List.append_assoc, List.append_assoc]
    exact chars
  obtain ⟨front, hashes⟩ := Delimited.last_inj digits figures ends
  obtain ⟨blocks, names⟩ := Delimited.last_inj (signedHeaders_oneLine plain.headers)
    (signedHeaders_oneLine beside.headers) front
  exact ⟨String.toList_inj.mp methods, String.toList_inj.mp uris, String.toList_inj.mp queries,
    canonicalHeaders_inj plain.headers beside.headers (String.toList_inj.mp blocks),
    String.toList_inj.mp names, String.toList_inj.mp hashes⟩

theorem credentialScope_inj {day other : String} :
    credentialScope day = credentialScope other ↔ day = other := by
  constructor
  · intro same
    have chars := congrArg String.toList same
    rw [credentialScope, credentialScope, String.toList_append, String.toList_append] at chars
    exact String.toList_inj.mp (List.append_cancel_right chars)
  · exact congrArg credentialScope

theorem credentialScope_oneLine {day : String} (oneLine : OneLine day) :
    OneLine (credentialScope day) := by
  unfold OneLine credentialScope
  rw [String.toList_append, List.mem_append, not_or]
  exact ⟨oneLine, by simp⟩

theorem stringToSign_inj {stamp day hash date scope digest : String} (oneLine : OneLine stamp)
    (other : OneLine date) (dayLine : OneLine day) (scopeLine : OneLine scope)
    (same : stringToSign stamp day hash = stringToSign date scope digest) :
    stamp = date ∧ day = scope ∧ hash = digest := by
  have line : "\n".toList = ['\n'] := by simp
  unfold stringToSign at same
  generalize "AWS4-HMAC-SHA256\n" = algorithm at same
  have chars := congrArg String.toList same
  simp only [String.toList_append, line, List.append_assoc, List.singleton_append] at chars
  obtain ⟨dates, chars⟩ := Delimited.first_inj oneLine other (List.append_cancel_left chars)
  obtain ⟨scopes, hashes⟩ := Delimited.first_inj (credentialScope_oneLine dayLine)
    (credentialScope_oneLine scopeLine) chars
  exact ⟨String.toList_inj.mp dates, credentialScope_inj.mp (String.toList_inj.mp scopes),
    String.toList_inj.mp hashes⟩

end Texts

section Sign

variable [DocumentCodec] [SigningCrates]

/-- What `sign` is given. -/
structure SigningInput where
  accessKeyId : String
  secretAccessKey : String
  method : String
  host : String
  uri : String
  query : String
  extraHeaders : List (String × String)
  payload : Bytes
  now : DateTime
  deriving DecidableEq, Repr

def SigningInput.headers (input : SigningInput) : List (String × String) :=
  headersToSign input.host (SigningCrates.stamp input.now) (DocumentCodec.sha256Hex input.payload)
    input.extraHeaders

def SigningInput.canonical (input : SigningInput) : Bytes :=
  asBytes (canonicalRequest input.method input.uri input.query input.headers
    (DocumentCodec.sha256Hex input.payload))

def SigningInput.text (input : SigningInput) : String :=
  stringToSign (SigningCrates.stamp input.now) (SigningCrates.day input.now)
    (DocumentCodec.sha256Hex input.canonical)

def SigningInput.signed (input : SigningInput) : Signed :=
  sign input.accessKeyId input.secretAccessKey input.method input.host input.uri input.query
    input.extraHeaders input.payload input.now

/-- The key and the data of the HMAC that is the signature. -/
def SigningInput.macInput (input : SigningInput) : Bytes × Bytes :=
  (signingKey input.secretAccessKey (SigningCrates.day input.now), asBytes input.text)

def SigningInput.Plain (input : SigningInput) : Prop :=
  PlainRequest input.method input.uri input.query input.headers

theorem SigningInput.authorization_eq (input : SigningInput) :
    input.signed.authorization = "AWS4-HMAC-SHA256 Credential=" ++ input.accessKeyId ++ "/" ++
      credentialScope (SigningCrates.day input.now) ++ ", SignedHeaders=" ++
      signedHeaders input.headers ++ ", Signature=" ++
      hexEncode (SigningCrates.hmacSha256 input.macInput.1 input.macInput.2) := rfl

/-- Inputs that differ only in a time of one stamp and day are signed alike. -/
theorem SigningInput.sameStamp (input : SigningInput) {later : DateTime}
    (stamps : SigningCrates.stamp later = SigningCrates.stamp input.now)
    (days : SigningCrates.day later = SigningCrates.day input.now) :
    ({ input with now := later }).canonical = input.canonical ∧
      ({ input with now := later }).macInput = input.macInput := by
  have headers : ({ input with now := later }).headers = input.headers := by
    simp only [SigningInput.headers, stamps]
  have canonical : ({ input with now := later }).canonical = input.canonical := by
    simp only [SigningInput.canonical, headers]
  refine ⟨canonical, ?_⟩
  simp only [SigningInput.macInput, SigningInput.text, canonical, stamps, days]

omit [SigningCrates] in
theorem sha256Hex_oneLine (bytes : Bytes) : OneLine (DocumentCodec.sha256Hex bytes) := by
  intro member
  have digit := List.all_eq_true.mp (DocumentCodec.sha256Hex_digits bytes) _ member
  exact absurd digit (by decide)

/-- An authorization shows the MAC, and the account where the rest is known. -/
theorem authorization_inj {left right : SigningInput}
    (same : left.signed.authorization = right.signed.authorization) :
    SigningCrates.hmacSha256 left.macInput.1 left.macInput.2 =
        SigningCrates.hmacSha256 right.macInput.1 right.macInput.2 ∧
      (SigningCrates.day left.now = SigningCrates.day right.now →
        signedHeaders left.headers = signedHeaders right.headers →
          left.accessKeyId = right.accessKeyId) := by
  rw [SigningInput.authorization_eq, SigningInput.authorization_eq] at same
  generalize "AWS4-HMAC-SHA256 Credential=" = opening at same
  generalize ", SignedHeaders=" = between at same
  generalize ", Signature=" = closing at same
  have sizes : ∀ input : SigningInput, (hexEncode (SigningCrates.hmacSha256 input.macInput.1
      input.macInput.2)).toList.length = 64 := by
    intro input
    rw [String.length_toList, hexEncode_length, SigningCrates.hmacSha256_length]
  have chars := congrArg String.toList same
  simp only [String.toList_append] at chars
  obtain ⟨front, tags⟩ := List.append_inj' chars ((sizes left).trans (sizes right).symm)
  refine ⟨hexEncode_injective (String.toList_inj.mp tags), ?_⟩
  intro days names
  rw [days, names] at front
  simp only [List.append_assoc] at front
  exact String.toList_inj.mp (List.append_cancel_right (List.append_cancel_left front))

/-- The authorizations of a set of requests are as good as the requests themselves, where the
hash and the MAC have no collisions among their texts. -/
theorem signed_inj {inputs : Set SigningInput} (plain : ∀ input ∈ inputs, input.Plain)
    (hashes : Set.InjOn DocumentCodec.sha256Hex
      (SigningInput.canonical '' inputs ∪ SigningInput.payload '' inputs))
    (macs : Set.InjOn (fun pair : Bytes × Bytes => SigningCrates.hmacSha256 pair.1 pair.2)
      (SigningInput.macInput '' inputs)) {left right : SigningInput} (member : left ∈ inputs)
    (other : right ∈ inputs) (same : left.signed.authorization = right.signed.authorization) :
    left.accessKeyId = right.accessKeyId ∧
      SigningCrates.stamp left.now = SigningCrates.stamp right.now ∧
      left.method = right.method ∧ left.uri = right.uri ∧ left.query = right.query ∧
      left.payload = right.payload ∧
      left.headers.map trimmed = right.headers.map trimmed := by
  obtain ⟨tags, account⟩ := authorization_inj same
  have texts : left.macInput = right.macInput :=
    macs ⟨left, member, rfl⟩ ⟨right, other, rfl⟩ tags
  obtain ⟨stamps, days, digests⟩ := stringToSign_inj (SigningCrates.stamp_oneLine _)
    (SigningCrates.stamp_oneLine _) (SigningCrates.day_oneLine _) (SigningCrates.day_oneLine _)
    (asBytes_injective (congrArg Prod.snd texts))
  have requests : left.canonical = right.canonical :=
    hashes (.inl ⟨left, member, rfl⟩) (.inl ⟨right, other, rfl⟩) digests
  obtain ⟨method, uri, query, headers, names, payloads⟩ := canonicalRequest_inj
    (plain left member) (plain right other) (sha256Hex_oneLine _) (sha256Hex_oneLine _)
    (asBytes_injective requests)
  have payload : left.payload = right.payload :=
    hashes (.inr ⟨left, member, rfl⟩) (.inr ⟨right, other, rfl⟩) payloads
  exact ⟨account days names, stamps, method, uri, query, payload, headers⟩

end Sign

section Operations

def Operation.method : Operation → String
  | .get _ => "GET"
  | .put _ _ _ => "PUT"
  | .headEtag _ => "HEAD"
  | .listPage _ _ => "GET"
  | .delete _ => "DELETE"

def Operation.uri (bucket : String) : Operation → String
  | .get key => objectUri bucket key
  | .put key _ _ => objectUri bucket key
  | .headEtag key => objectUri bucket key
  | .listPage _ _ => bucketUri bucket
  | .delete key => objectUri bucket key

def Operation.query : Operation → String
  | .listPage listed token => pageQuery listed token
  | _ => ""

def Operation.extra : Operation → List (String × String)
  | .put _ _ precondition => precondition.extra
  | _ => []

def Operation.payload : Operation → Bytes
  | .put _ body _ => body
  | _ => []

/-- An ETag as it comes in a header. -/
def Operation.Sendable : Operation → Prop
  | .put _ _ (.ifMatch etag) => OneLine etag ∧ trim etag = etag
  | _ => True

theorem objectUri_ne_bucketUri (bucket key other : String) : objectUri bucket key ≠ bucketUri other := by
  intro same
  have slash : "/".toList = ['/'] := by simp
  have chars := congrArg String.toList same
  rw [toList_objectUri, bucketUri, String.toList_append, slash, List.singleton_append] at chars
  have inside : '/' ∈ (Sigv4.encode other false).toList := by
    rw [← (List.cons_eq_cons.mp chars).2]
    simp
  exact slash_not_mem_sigv4 other inside

theorem bucketUri_inj {bucket other : String} (same : bucketUri bucket = bucketUri other) :
    bucket = other := by
  have chars := congrArg String.toList same
  rw [bucketUri, bucketUri, String.toList_append, String.toList_append] at chars
  exact Sigv4.encode_injective false (String.toList_inj.mp (List.append_cancel_left chars))

theorem pageQuery_inj {listed other : String} {token another : Option String}
    (same : pageQuery listed token = pageQuery other another) :
    listed = other ∧ token = another := by
  have asks := pageQuery_asks listed token
  rw [same] at asks
  exact asks_inj asks

theorem precondition_inj {one two : Precondition} {key : String} {body : Bytes}
    (ready : Operation.Sendable (.put key body one)) (other : Operation.Sendable (.put key body two))
    (same : ∀ header, header ∈ one.extra.map trimmed ↔ header ∈ two.extra.map trimmed) :
    one = two := by
  have star : trim "*" = "*" := by decide
  have here := same ("if-none-match", "*")
  cases one with
  | none =>
      cases two with
      | none => rfl
      | ifMatch etag =>
          have there := same ("if-match", trim etag)
          simp [Precondition.extra, trimmed] at there
      | ifNoneMatchStar => simp [Precondition.extra, trimmed, star] at here
  | ifMatch etag =>
      have there := same ("if-match", trim etag)
      cases two with
      | none => simp [Precondition.extra, trimmed] at there
      | ifMatch another =>
          simp only [Precondition.extra, trimmed, List.map_cons, List.map_nil, List.mem_singleton,
            Prod.mk.injEq, true_and, true_iff] at there
          rw [ready.2, other.2] at there
          rw [there]
      | ifNoneMatchStar => simp [Precondition.extra, trimmed, star] at here
  | ifNoneMatchStar =>
      cases two with
      | none => simp [Precondition.extra, trimmed, star] at here
      | ifMatch another => simp [Precondition.extra, trimmed, star] at here
      | ifNoneMatchStar => rfl

/-- The method, the path, the query, the extra headers and the payload say what is asked. -/
theorem operation_inj {bucket other : String} {one two : Operation} (ready : one.Sendable)
    (prepared : two.Sendable) (method : one.method = two.method)
    (uri : one.uri bucket = two.uri other) (query : one.query = two.query)
    (extra : ∀ header, header ∈ one.extra.map trimmed ↔ header ∈ two.extra.map trimmed)
    (payload : one.payload = two.payload) : bucket = other ∧ one = two := by
  cases one with
  | get key =>
      cases two with
      | get another =>
          obtain ⟨buckets, keys⟩ := objectUri_inj.mp uri
          exact ⟨buckets, congrArg Operation.get keys⟩
      | listPage listed token => exact absurd uri (objectUri_ne_bucketUri bucket key other)
      | put | headEtag | delete => simp [Operation.method] at method
  | put key body precondition =>
      cases two with
      | put another content condition =>
          obtain ⟨buckets, rfl⟩ := objectUri_inj.mp uri
          cases show body = content from payload
          rw [precondition_inj ready prepared extra]
          exact ⟨buckets, rfl⟩
      | get | listPage | headEtag | delete => simp [Operation.method] at method
  | headEtag key =>
      cases two with
      | headEtag another =>
          obtain ⟨buckets, keys⟩ := objectUri_inj.mp uri
          exact ⟨buckets, congrArg Operation.headEtag keys⟩
      | get | put | listPage | delete => simp [Operation.method] at method
  | listPage listed token =>
      cases two with
      | listPage prefixed next =>
          obtain ⟨rfl, rfl⟩ := pageQuery_inj query
          exact ⟨bucketUri_inj uri, rfl⟩
      | get key => exact absurd uri.symm (objectUri_ne_bucketUri other key bucket)
      | put | headEtag | delete => simp [Operation.method] at method
  | delete key =>
      cases two with
      | delete another =>
          obtain ⟨buckets, keys⟩ := objectUri_inj.mp uri
          exact ⟨buckets, congrArg Operation.delete keys⟩
      | get | put | listPage | headEtag => simp [Operation.method] at method

end Operations

section Sent

variable [DocumentCodec] [SigningCrates]

/-- A request that a client sends at some time. -/
structure Sending where
  client : R2
  operation : Operation
  now : DateTime
  deriving DecidableEq, Repr

def Sending.request (sending : Sending) : SentRequest :=
  sending.client.send sending.now sending.operation

def Sending.input (sending : Sending) : SigningInput where
  accessKeyId := sending.client.accessKeyId
  secretAccessKey := sending.client.secretAccessKey
  method := sending.operation.method
  host := sending.client.host
  uri := sending.operation.uri sending.client.bucket
  query := sending.operation.query
  extraHeaders := sending.operation.extra
  payload := sending.operation.payload
  now := sending.now

/-- The host is that of a URL, and an ETag comes from a header. -/
structure Sending.Ready (sending : Sending) : Prop where
  host : OneLine sending.client.host
  hostTrimmed : trim sending.client.host = sending.client.host
  operation : sending.operation.Sendable

theorem Sending.authorization_eq (sending : Sending) :
    sending.request.headers.lookup "authorization" =
      some sending.input.signed.authorization := by
  obtain ⟨client, operation, now⟩ := sending
  cases operation with
  | put key body precondition =>
      cases precondition <;> simp [Sending.request, R2.send, R2.request, Precondition.extra,
        List.lookup_cons] <;> rfl
  | get | headEtag | listPage | delete =>
      simp [Sending.request, R2.send, R2.request, List.lookup_cons]
      rfl

omit [DocumentCodec] [SigningCrates] in
theorem oneLine_sigv4 (input : String) (keepSlash : Bool) :
    OneLine (Sigv4.encode input keepSlash) := by
  intro member
  rcases (Sigv4.encode_text input keepSlash).chars _ member with percent | kept | allowed
  · cases percent
  · cases kept.1
  · exact absurd allowed (by decide)

omit [DocumentCodec] [SigningCrates] in
theorem Operation.uri_oneLine (operation : Operation) (bucket : String) :
    OneLine (operation.uri bucket) := by
  have slash : OneLine "/" := by simp [OneLine]
  have object : ∀ key, OneLine (objectUri bucket key) := by
    intro key
    exact oneLine_append (oneLine_append (oneLine_append slash (oneLine_sigv4 bucket false)) slash)
      (oneLine_sigv4 key true)
  cases operation with
  | listPage => exact oneLine_append slash (oneLine_sigv4 bucket false)
  | get key | headEtag key | delete key => exact object key
  | put key => exact object key

omit [DocumentCodec] [SigningCrates] in
theorem Operation.query_oneLine (operation : Operation) : OneLine operation.query := by
  cases operation with
  | listPage listed token =>
      refine oneLine_intercalate (by simp [OneLine]) ?_
      intro text member
      rw [List.mem_insertionSort] at member
      obtain ⟨pair, -, rfl⟩ := List.mem_map.mp member
      exact oneLine_append (oneLine_append (oneLine_sigv4 pair.1 false) (by simp [OneLine]))
        (oneLine_sigv4 pair.2 false)
  | get | put | headEtag | delete => simp [Operation.query, OneLine]

omit [DocumentCodec] [SigningCrates] in
theorem oneLine_trim {text : String} (oneLine : OneLine text) : OneLine (trim text) := by
  unfold OneLine trim
  rw [String.toList_ofList]
  intro member
  exact oneLine ((List.dropWhile_suffix _).subset ((List.rdropWhile_prefix _ _).subset member))

/-- The names of the headers that every request has. -/
def fixedNames : List String :=
  ["host", "x-amz-content-sha256", "x-amz-date"]

omit [DocumentCodec] [SigningCrates] in
theorem Operation.extra_plain {operation : Operation} (ready : operation.Sendable) :
    ∀ header ∈ operation.extra, PlainHeader header ∧ header.1 ∉ fixedNames := by
  intro header member
  cases operation with
  | put key body precondition =>
      cases precondition with
      | none => cases member
      | ifMatch etag =>
          cases List.mem_singleton.mp member
          exact ⟨⟨by simp [OneLine], by simp, oneLine_trim ready.1⟩, by simp [fixedNames]⟩
      | ifNoneMatchStar =>
          cases List.mem_singleton.mp member
          exact ⟨⟨by simp [OneLine], by simp, oneLine_trim (by simp [OneLine])⟩, by decide⟩
  | get | headEtag | listPage | delete => cases member

theorem Sending.Ready.plain {sending : Sending} (ready : sending.Ready) : sending.input.Plain where
  method := by
    unfold Sending.input
    cases sending.operation <;> simp [Operation.method, OneLine]
  uri := sending.operation.uri_oneLine _
  query := sending.operation.query_oneLine
  headers := by
    intro header member
    unfold SigningInput.headers headersToSign at member
    rw [List.mem_insertionSort] at member
    rcases List.mem_append.mp member with fixed | extra
    · simp only [List.mem_cons, List.not_mem_nil, or_false] at fixed
      rcases fixed with rfl | rfl | rfl
      · exact ⟨by simp [OneLine], by simp, oneLine_trim ready.host⟩
      · exact ⟨by simp [OneLine], by simp, oneLine_trim (sha256Hex_oneLine _)⟩
      · exact ⟨by simp [OneLine], by simp, oneLine_trim (SigningCrates.stamp_oneLine _)⟩
    · exact (Operation.extra_plain ready.operation header extra).1

/-- Of the signed headers, those that are not in every request are the extra ones. -/
theorem Sending.Ready.mem_extra {sending : Sending} (ready : sending.Ready)
    (header : String × String) : header ∈ sending.operation.extra.map trimmed ↔
      header ∈ sending.input.headers.map trimmed ∧ header.1 ∉ fixedNames := by
  constructor
  · intro member
    obtain ⟨given, among, rfl⟩ := List.mem_map.mp member
    refine ⟨List.mem_map_of_mem ?_, (Operation.extra_plain ready.operation given among).2⟩
    exact (List.mem_insertionSort _).mpr (List.mem_append_right _ among)
  · intro member
    obtain ⟨given, among, rfl⟩ := List.mem_map.mp member.1
    rcases List.mem_append.mp ((List.mem_insertionSort _).mp among) with fixed | extra
    · simp only [List.mem_cons, List.not_mem_nil, or_false] at fixed
      refine absurd ?_ member.2
      rcases fixed with rfl | rfl | rfl <;> simp [fixedNames, trimmed]
    · exact List.mem_map_of_mem extra

theorem Sending.Ready.mem_host {sending : Sending} (ready : sending.Ready) (host : String) :
    ("host", host) ∈ sending.input.headers.map trimmed ↔ host = sending.client.host := by
  constructor
  · intro member
    obtain ⟨given, among, same⟩ := List.mem_map.mp member
    rcases List.mem_append.mp ((List.mem_insertionSort _).mp among) with fixed | extra
    · simp only [List.mem_cons, List.not_mem_nil, or_false] at fixed
      rcases fixed with rfl | rfl | rfl
      · exact (Prod.mk.inj same).2.symm.trans ready.hostTrimmed
      · exact absurd (Prod.mk.inj same).1 (by simp)
      · exact absurd (Prod.mk.inj same).1 (by simp)
    · have apart := (Operation.extra_plain ready.operation given extra).2
      have name : given.1 = "host" := (Prod.mk.inj same).1
      rw [name] at apart
      exact absurd (by decide) apart
  · rintro rfl
    refine List.mem_map.mpr ⟨("host", sending.client.host), ?_, ?_⟩
    · exact (List.mem_insertionSort _).mpr (by simp [Sending.input])
    · exact Prod.ext rfl ready.hostTrimmed

/-- Of any number of requests that any clients sent, two with the same authorization ask the
same of the same bucket, for the same account and at the same time: what is signed leaves
nothing of a request open. -/
theorem authorization_determines {sendings : Set Sending} (ready : ∀ sending ∈ sendings, sending.Ready)
    (hashes : Set.InjOn DocumentCodec.sha256Hex
      (SigningInput.canonical '' (Sending.input '' sendings) ∪
        SigningInput.payload '' (Sending.input '' sendings)))
    (macs : Set.InjOn (fun pair : Bytes × Bytes => SigningCrates.hmacSha256 pair.1 pair.2)
      (SigningInput.macInput '' (Sending.input '' sendings)))
    {left right : Sending} (member : left ∈ sendings) (other : right ∈ sendings)
    (same : left.request.headers.lookup "authorization" =
      right.request.headers.lookup "authorization") :
    left.client.accessKeyId = right.client.accessKeyId ∧ left.client.host = right.client.host ∧
      left.client.bucket = right.client.bucket ∧ left.operation = right.operation ∧
      SigningCrates.stamp left.now = SigningCrates.stamp right.now := by
  rw [Sending.authorization_eq, Sending.authorization_eq] at same
  have plain : ∀ input ∈ Sending.input '' sendings, input.Plain := by
    rintro _ ⟨sending, among, rfl⟩
    exact (ready sending among).plain
  obtain ⟨account, stamps, method, uri, query, payload, headers⟩ :=
    signed_inj plain hashes macs ⟨left, member, rfl⟩ ⟨right, other, rfl⟩ (Option.some.inj same)
  have hosts : left.client.host = right.client.host := by
    rw [← (ready right other).mem_host, ← headers, (ready left member).mem_host]
  have extra : ∀ header, header ∈ left.operation.extra.map trimmed ↔
      header ∈ right.operation.extra.map trimmed := by
    intro header
    rw [(ready left member).mem_extra, (ready right other).mem_extra, headers]
  obtain ⟨buckets, operations⟩ := operation_inj (ready left member).operation
    (ready right other).operation method uri query extra payload
  exact ⟨account, hosts, buckets, operations, stamps⟩

end Sent

section Example

/-- Codes of single bytes, over a clock that stands still within a second. -/
@[reducible] def SigningCrates.short : SigningCrates where
  hmacSha256 key data := List.replicate 32 ((key ++ data).foldl (fun code byte => code * 31 + byte) 7)
  stamp now := if now < 1000000000 then "19700101T000000Z" else "19700101T000001Z"
  day _ := "19700101"
  hmacSha256_length _ _ := List.length_replicate
  stamp_oneLine now := by
    split <;> simp
  day_oneLine _ := by simp

attribute [local instance] DocumentCodec.padded SigningCrates.short

def exampleClient : R2 where
  endpoint := "https://a.example"
  host := "a.example"
  bucket := "b"
  accessKeyId := "id"
  secretAccessKey := "secret"

/-- The same object is read twice in one second, and then deleted. -/
def firstSending : Sending := ⟨exampleClient, .get "k", 0⟩
def secondSending : Sending := ⟨exampleClient, .get "k", 5⟩
def lastSending : Sending := ⟨exampleClient, .delete "k", 7⟩

def exampleSendings : Set Sending :=
  {firstSending, secondSending, lastSending}

theorem exampleSendings_ready : ∀ sending ∈ exampleSendings, sending.Ready := by
  intro sending member
  rcases member with rfl | rfl | rfl
  · exact ⟨by simp [OneLine, firstSending, exampleClient], by decide +kernel, trivial⟩
  · exact ⟨by simp [OneLine, secondSending, exampleClient], by decide +kernel, trivial⟩
  · exact ⟨by simp [OneLine, lastSending, exampleClient], by decide +kernel, trivial⟩

theorem exampleSendings_inputs : ∀ input ∈ Sending.input '' exampleSendings,
    input ∈ [firstSending.input, secondSending.input, lastSending.input] := by
  rintro _ ⟨sending, member, rfl⟩
  rcases member with rfl | rfl | rfl <;> simp

theorem secondSending_alike : secondSending.input.canonical = firstSending.input.canonical ∧
    secondSending.input.macInput = firstSending.input.macInput :=
  firstSending.input.sameStamp rfl rfl

theorem exampleSendings_hashes : Set.InjOn DocumentCodec.sha256Hex
    (SigningInput.canonical '' (Sending.input '' exampleSendings) ∪
      SigningInput.payload '' (Sending.input '' exampleSendings)) := by
  have known : ∀ bytes ∈ SigningInput.canonical '' (Sending.input '' exampleSendings) ∪
      SigningInput.payload '' (Sending.input '' exampleSendings),
      bytes ∈ [firstSending.input.canonical, lastSending.input.canonical, []] := by
    intro bytes occurs
    rcases occurs with request | payload
    · obtain ⟨input, member, rfl⟩ := request
      have among := exampleSendings_inputs input member
      simp only [List.mem_cons, List.not_mem_nil, or_false] at among
      rcases among with rfl | rfl | rfl
      · simp
      · simp [secondSending_alike.1]
      · simp
    · obtain ⟨input, member, rfl⟩ := payload
      have among := exampleSendings_inputs input member
      simp only [List.mem_cons, List.not_mem_nil, or_false] at among
      rcases among with rfl | rfl | rfl <;>
        simp [Sending.input, Operation.payload, firstSending, secondSending, lastSending]
  have apart : ([firstSending.input.canonical, lastSending.input.canonical, []].map
      DocumentCodec.sha256Hex).Nodup := by
    decide +kernel
  exact fun one oneIn other otherIn same =>
    List.inj_on_of_nodup_map apart (known one oneIn) (known other otherIn) same

theorem exampleSendings_macs :
    Set.InjOn (fun pair : Bytes × Bytes => SigningCrates.hmacSha256 pair.1 pair.2)
      (SigningInput.macInput '' (Sending.input '' exampleSendings)) := by
  have known : ∀ pair ∈ SigningInput.macInput '' (Sending.input '' exampleSendings),
      pair ∈ [firstSending.input.macInput, lastSending.input.macInput] := by
    rintro _ ⟨input, member, rfl⟩
    have among := exampleSendings_inputs input member
    simp only [List.mem_cons, List.not_mem_nil, or_false] at among
    rcases among with rfl | rfl | rfl
    · simp
    · simp [secondSending_alike.2]
    · simp
  have apart : ([firstSending.input.macInput, lastSending.input.macInput].map fun pair =>
      SigningCrates.hmacSha256 pair.1 pair.2).Nodup := by
    decide +kernel
  exact fun one oneIn other otherIn same =>
    List.inj_on_of_nodup_map apart (known one oneIn) (known other otherIn) same

theorem authorization_determines_repeated :
    firstSending.client.accessKeyId = secondSending.client.accessKeyId ∧
      firstSending.client.host = secondSending.client.host ∧
      firstSending.client.bucket = secondSending.client.bucket ∧
      firstSending.operation = secondSending.operation ∧
      SigningCrates.stamp firstSending.now = SigningCrates.stamp secondSending.now := by
  have same : firstSending.request.headers.lookup "authorization" =
      secondSending.request.headers.lookup "authorization" := by
    rw [Sending.authorization_eq, Sending.authorization_eq, SigningInput.authorization_eq,
      SigningInput.authorization_eq, secondSending_alike.2]
    rfl
  exact authorization_determines exampleSendings_ready exampleSendings_hashes
    exampleSendings_macs (.inl rfl) (.inr (.inl rfl)) same

end Example

end AgentTranscript
