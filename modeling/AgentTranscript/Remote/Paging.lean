import AgentTranscript.Library.Paging
import AgentTranscript.Remote.CanonicalQuery
import AgentTranscript.Remote.Listing

/-!
Listing a bucket page by page, while others write to it and delete from it.
-/

set_option autoImplicit false

namespace AgentTranscript

open Loop

section Definitions

/-- What a request gets back: a status, and a body unless it cannot be read. -/
structure Response where
  status : Nat
  body : Except String String

def Response.isSuccess (response : Response) : Bool :=
  200 ≤ response.status && response.status < 300

def responseError (op target : String) (response : Response) : Error :=
  let body := response.body.toOption.getD ""
  let detail := String.ofList ((trim body).toList.take 300)
  .msg s!"{op} `{target}`: HTTP {response.status} {detail}"

variable [ListingCrates]

def pageQuery (listed : String) (token : Option String) : String :=
  canonicalQuery ([("list-type", "2"), ("prefix", listed)] ++
    token.toList.map fun token => ("continuation-token", token))

/-- One turn of the loop in `list_detailed_sync`, up to the page that was read. -/
def fetchPage (send : String → Except Error Response) (listed : String) (token : Option String) :
    Except Error (List ListedObject × Bool × Option String) := do
  let response ← send (pageQuery listed token)
  if !response.isSuccess then
    .error (responseError "listing" listed response)
  else
    match response.body with
    | .error error => .error (.msg s!"listing `{listed}`: {error}")
    | .ok xml => parseListing xml listed

/-- The loop in `list_detailed_sync`, from one of its turns; `none` if it is still running
after a number of turns. -/
def listFrom (send : Nat → String → Except Error Response) (listed : String) :
    Nat → Nat → Option String → List ListedObject → Option (Except Error (List ListedObject))
  | 0, _, _, _ => none
  | fuel + 1, turn, token, objects =>
      match fetchPage (send turn) listed token with
      | .error error => some (.error error)
      | .ok (page, truncated, next) =>
          if !truncated then some (.ok (objects ++ page))
          else
            match next with
            | none => some (.error (.msg
                s!"listing `{listed}` was truncated without a continuation token"))
            | some next => listFrom send listed fuel (turn + 1) (some next) (objects ++ page)

/-- `list_detailed_sync`, where `send` answers the request of each turn. -/
def listDetailed (send : Nat → String → Except Error Response) (listed : String) (fuel : Nat) :
    Option (Except Error (List ListedObject)) :=
  listFrom send listed fuel 0 none []

end Definitions

section Query

def readPair (part : String) : Option (String × String) := do
  let (name, value) ← splitOnce part '='
  let name ← percentDecode name
  let value ← percentDecode value
  some (name, value)

/-- The pairs of a query, as a store reads them. -/
def readQuery (query : String) : List (String × String) :=
  (splitChar query '&').filterMap readPair

theorem readPair_joinPair (pair : String × String) :
    readPair (joinPair (encodedPair pair)) = some pair := by
  have absent : '=' ∉ (encodedPair pair).1.toList :=
    not_mem_sigv4 (by decide) (by decide) pair.1
  have mark : "=" = String.singleton '=' := by simp
  have split : splitOnce (joinPair (encodedPair pair)) '=' = some (encodedPair pair) := by
    rw [joinPair, mark]
    exact splitOnce_append absent
  rw [readPair, split]
  simp [encodedPair, percentDecode_sigv4]

theorem splitChar_query {texts : List String} (nonempty : texts ≠ [])
    (absent : ∀ text ∈ texts, '&' ∉ text.toList) : splitChar ("&".intercalate texts) '&' = texts := by
  have mark : "&".toList = ['&'] := by simp
  have parts : ∀ part ∈ texts.map String.toList, '&' ∉ part := by
    intro part member
    obtain ⟨text, among, rfl⟩ := List.mem_map.mp member
    exact absent text among
  have read : ∀ text ∈ texts, (String.ofList ∘ String.toList) text = text :=
    fun text _ => String.ofList_toList
  rw [splitChar, String.toList_intercalate, mark,
    List.splitOn_intercalate '&' parts (by simpa using nonempty), List.map_map,
    List.map_congr_left read, List.map_id']

/-- A store reads from a query the pairs that it was made of. -/
theorem readQuery_canonicalQuery {pairs : List (String × String)} (nonempty : pairs ≠ []) :
    (readQuery (canonicalQuery pairs)).Perm pairs := by
  have sorted := List.perm_insertionSort (· ≤ ·) (pairs.map fun pair => joinPair (encodedPair pair))
  have split : splitChar (canonicalQuery pairs) '&' =
      (pairs.map fun pair => joinPair (encodedPair pair)).insertionSort (· ≤ ·) := by
    apply splitChar_query
    · intro none
      rw [none] at sorted
      exact nonempty (List.map_eq_nil_iff.mp sorted.nil_eq.symm)
    · intro text member
      obtain ⟨pair, -, rfl⟩ := List.mem_map.mp (sorted.mem_iff.mp member)
      exact ampersand_not_mem pair
  have read : ∀ pair ∈ pairs, (readPair ∘ fun pair => joinPair (encodedPair pair)) pair = some pair :=
    fun pair _ => readPair_joinPair pair
  rw [readQuery, split]
  refine (sorted.filterMap readPair).trans ?_
  rw [List.filterMap_map, List.filterMap_congr read, List.filterMap_some]

end Query

section Store

variable [ListingCrates]

/-- What a bucket holds at each turn of a listing, in the order of the keys, and how a store
pages through it: how many objects it puts on a page, and the token that goes on behind
a key. -/
structure PagedStore where
  contents : Nat → List ShownObject
  size : Nat → Nat
  tokenOf : String → String
  ordered : ∀ turn, (contents turn).Pairwise fun left right => left.listed.key < right.listed.key
  positive : ∀ turn, 0 < size turn

def ShownObject.name (object : ShownObject) : String :=
  object.listed.key

/-- The objects under a prefix. -/
def PagedStore.under (store : PagedStore) (listed : String) (turn : Nat) : List ShownObject :=
  (store.contents turn).filter fun object => startsWith object.name listed

def PagedStore.rest (store : PagedStore) (listed : String) (turn : Nat) (after : Option String) :
    List ShownObject :=
  Paging.remaining ShownObject.name (store.under listed turn) after

/-- A page with what is left behind a key, or as much of it as the store puts on a page. -/
structure PagedStore.Shows (store : PagedStore) (listed : String) (turn : Nat)
    (after : Option String) (page : ListingPage) : Prop where
  objects : page.objects = (store.rest listed turn after).take (store.size turn)
  truncated : page.truncated = decide (store.size turn < (store.rest listed turn after).length)
  token : page.truncated = true →
    page.token.map plainText = (page.objects.getLast?.map ShownObject.name).map store.tokenOf
  plainKeys : ∀ object ∈ page.objects, EndsPlain object.key
  plainToken : ∀ token ∈ page.token, EndsPlain token
  tokenized : ListingCrates.tokenize page.text = page.tokens.map .ok

/-- What may come back for a page: nothing, a refusal, a body that breaks off, or the page. -/
inductive PagedStore.Answers (store : PagedStore) (listed : String) (turn : Nat)
    (after : Option String) : Except Error Response → Prop where
  | failed (error : Error) : Answers store listed turn after (.error error)
  | refused {response : Response} (status : response.isSuccess = false) :
      Answers store listed turn after (.ok response)
  | broken {response : Response} {error : String} (body : response.body = .error error) :
      Answers store listed turn after (.ok response)
  | page {response : Response} {page : ListingPage} (status : response.isSuccess = true)
      (body : response.body = .ok page.text) (shows : store.Shows listed turn after page) :
      Answers store listed turn after (.ok response)

def Asks (query listed : String) (token : Option String) : Prop :=
  ("list-type", "2") ∈ readQuery query ∧ ("prefix", listed) ∈ readQuery query ∧
    ∀ other, ("continuation-token", other) ∈ readQuery query ↔ token = some other

def PagedStore.Serves (store : PagedStore) (send : Nat → String → Except Error Response) : Prop :=
  ∀ turn query listed after, Asks query listed (after.map store.tokenOf) →
    store.Answers listed turn after (send turn query)

omit [ListingCrates] in
theorem readQuery_pageQuery (listed : String) (token : Option String) :
    (readQuery (pageQuery listed token)).Perm ([("list-type", "2"), ("prefix", listed)] ++
      token.toList.map fun token => ("continuation-token", token)) :=
  readQuery_canonicalQuery (by simp)

omit [ListingCrates] in
theorem pageQuery_asks (listed : String) (token : Option String) :
    Asks (pageQuery listed token) listed token := by
  have read := readQuery_pageQuery listed token
  refine ⟨read.mem_iff.mpr (by simp), read.mem_iff.mpr (by simp), ?_⟩
  intro other
  rw [read.mem_iff]
  cases token <;> simp [eq_comm]

omit [ListingCrates] in
/-- A query asks for one page only. -/
theorem asks_inj {listed other : String} {token another : Option String}
    (asks : Asks (pageQuery listed token) other another) : other = listed ∧ another = token := by
  obtain ⟨-, under, continued⟩ := pageQuery_asks listed token
  obtain ⟨-, prefixed, tokens⟩ := asks
  rw [(readQuery_pageQuery listed token).mem_iff] at prefixed
  constructor
  · simpa using prefixed
  · apply Option.ext
    intro place
    have same := (tokens place).symm.trans (continued place)
    simpa [eq_comm] using same

end Store

section Runs

variable [ListingCrates] {store : PagedStore} {send : Nat → String → Except Error Response}
  {listed : String} {fuel turn : Nat} {after : Option String}

/-- A request for a page fails, or gives what the store puts on it and where to go on. -/
theorem fetchPage_cases (serves : store.Serves send) (listed : String) (turn : Nat)
    (after : Option String) :
    (∃ error, fetchPage (send turn) listed (after.map store.tokenOf) = .error error) ∨
      ∃ next, fetchPage (send turn) listed (after.map store.tokenOf) = .ok
          (((store.rest listed turn after).take (store.size turn)).map ShownObject.listed,
            decide (store.size turn < (store.rest listed turn after).length), next) ∧
        (store.size turn < (store.rest listed turn after).length →
          next = (((store.rest listed turn after).take (store.size turn)).getLast?.map
            ShownObject.name).map store.tokenOf) := by
  have answer := serves turn _ listed after (pageQuery_asks listed (after.map store.tokenOf))
  unfold fetchPage
  generalize send turn (pageQuery listed (after.map store.tokenOf)) = response at answer
  cases answer with
  | failed error => exact .inl ⟨error, rfl⟩
  | refused status =>
      rw [ok_bind, status]
      exact .inl ⟨_, rfl⟩
  | @broken response error body =>
      rw [ok_bind, body]
      cases response.isSuccess with
      | true => exact .inl ⟨_, rfl⟩
      | false => exact .inl ⟨_, rfl⟩
  | @page response page status body shows =>
      have read := (parseListing_exact_iff page listed shows.tokenized).mpr
        ⟨shows.plainKeys, shows.plainToken⟩
      refine .inr ⟨page.token.map plainText, ?_, ?_⟩
      · rw [ok_bind, status, body, ← shows.objects, ← shows.truncated]
        exact read
      · intro more
        rw [← shows.objects]
        exact shows.token (by simp [shows.truncated, more])

theorem listFrom_last {token next : Option String} {page before : List ListedObject}
    (read : fetchPage (send turn) listed token = .ok (page, false, next)) :
    listFrom send listed (fuel + 1) turn token before = some (.ok (before ++ page)) := by
  unfold listFrom
  rw [read]
  rfl

theorem listFrom_more {token : Option String} {next : String} {page before : List ListedObject}
    (read : fetchPage (send turn) listed token = .ok (page, true, some next)) :
    listFrom send listed (fuel + 1) turn token before =
      listFrom send listed fuel (turn + 1) (some next) (before ++ page) := by
  rw [listFrom, read]
  rfl

/-- A listing that succeeds is the scan of the bucket. -/
theorem listFrom_scan (serves : store.Serves send) {before objects : List ListedObject}
    (ran : listFrom send listed fuel turn (after.map store.tokenOf) before = some (.ok objects)) :
    ∃ found, Paging.scan ShownObject.name (store.under listed) store.size fuel turn after =
      some found ∧ objects = before ++ found.map ShownObject.listed := by
  induction fuel generalizing turn after before with
  | zero => cases ran
  | succ fuel ih =>
      rcases fetchPage_cases serves listed turn after with failed | read
      · obtain ⟨error, failed⟩ := failed
        unfold listFrom at ran
        rw [failed] at ran
        cases ran
      · obtain ⟨next, read, token⟩ := read
        unfold Paging.scan
        change ∃ found, (if store.size turn < (store.rest listed turn after).length then _
          else some ((store.rest listed turn after).take _)) = _ ∧ _
        by_cases more : store.size turn < (store.rest listed turn after).length
        · have filled := List.getLast?_isSome.mpr (Paging.take_filled (store.positive turn) more)
          obtain ⟨last, final⟩ := Option.isSome_iff_exists.mp filled
          rw [token more, final, decide_eq_true more] at read
          rw [listFrom_more read] at ran
          obtain ⟨found, scanned, rfl⟩ := @ih (turn + 1) (some last.name) _ ran
          refine ⟨(store.rest listed turn after).take (store.size turn) ++ found, ?_, ?_⟩
          · rw [PagedStore.rest] at final
            rw [if_pos more, final, Option.map_some, scanned]
            rfl
          · rw [List.map_append, List.append_assoc]
        · rw [decide_eq_false more] at read
          rw [listFrom_last read] at ran
          cases ran
          exact ⟨_, if_neg more, rfl⟩

/-- A listing ends where the scan does, or where a request fails. -/
theorem listFrom_ends (serves : store.Serves send) {found : List ShownObject}
    (scanned : Paging.scan ShownObject.name (store.under listed) store.size fuel turn after =
      some found) (before : List ListedObject) :
    ∃ outcome, listFrom send listed fuel turn (after.map store.tokenOf) before = some outcome ∧
      ∀ error, outcome = .error error → ∃ later, turn ≤ later ∧ ∃ token,
        fetchPage (send later) listed token = .error error := by
  induction fuel generalizing turn after before found with
  | zero => cases scanned
  | succ fuel ih =>
      rcases fetchPage_cases serves listed turn after with failed | read
      · obtain ⟨error, failed⟩ := failed
        refine ⟨.error error, ?_, ?_⟩
        · unfold listFrom
          rw [failed]
        · intro other same
          cases same
          exact ⟨turn, le_rfl, _, failed⟩
      · obtain ⟨next, read, token⟩ := read
        unfold Paging.scan at scanned
        change (if store.size turn < (store.rest listed turn after).length then
          (Paging.scan _ _ _ _ _ (((store.rest listed turn after).take _).getLast?.map _)).map _
          else _) = _ at scanned
        by_cases more : store.size turn < (store.rest listed turn after).length
        · have filled := List.getLast?_isSome.mpr (Paging.take_filled (store.positive turn) more)
          obtain ⟨last, final⟩ := Option.isSome_iff_exists.mp filled
          rw [if_pos more, final] at scanned
          obtain ⟨tail, onward, rfl⟩ := Option.map_eq_some_iff.mp scanned
          rw [token more, final, decide_eq_true more] at read
          obtain ⟨outcome, ran, failures⟩ := @ih (turn + 1) (some last.name) _ onward
            (before ++ ((store.rest listed turn after).take (store.size turn)).map
              ShownObject.listed)
          refine ⟨outcome, (listFrom_more read).trans ran, ?_⟩
          intro error same
          obtain ⟨later, bound, failed⟩ := failures error same
          exact ⟨later, by omega, failed⟩
        · rw [decide_eq_false more] at read
          refine ⟨.ok _, listFrom_last read, ?_⟩
          intro error same
          cases same

theorem PagedStore.under_sorted (store : PagedStore) (listed : String) (turn : Nat) :
    (store.under listed turn).Pairwise (ShownObject.name · < ShownObject.name ·) :=
  (store.ordered turn).sublist List.filter_sublist

/-- What a listing of a bucket that changes meanwhile holds. -/
structure PagedStore.Listing (store : PagedStore) (listed : String) (fuel : Nat)
    (objects : List ListedObject) : Prop where
  increasing : objects.Pairwise fun left right => left.key < right.key
  sound : ∀ object ∈ objects, startsWith object.key listed = true ∧
    ∃ turn < fuel, ∃ shown ∈ store.contents turn, shown.listed = object
  complete : ∀ key, startsWith key listed = true →
    (∀ turn < fuel, ∃ shown ∈ store.contents turn, shown.name = key) →
      ∃ object ∈ objects, object.key = key
  exact : (∀ turn < fuel, store.contents turn = store.contents 0) →
    objects = (store.under listed 0).map ShownObject.listed

/-- However the bucket changes between two pages, a listing that succeeds has every key once
and in order, each with an object that was there, and all keys that were there throughout;
and it ends when the keys are of a finite number, with an error only where a request
fails. -/
theorem listDetailed_changing (serves : store.Serves send) (listed : String) :
    (∀ fuel objects, listDetailed send listed fuel = some (.ok objects) →
      store.Listing listed fuel objects) ∧
    ∀ keys : Finset String, (∀ turn, ∀ object ∈ store.contents turn, object.name ∈ keys) →
      ∃ outcome, listDetailed send listed (keys.card + 1) = some outcome ∧
        ∀ error, outcome = .error error → ∃ turn token,
          fetchPage (send turn) listed token = .error error := by
  constructor
  · intro fuel objects ran
    obtain ⟨found, scanned, rfl⟩ := @listFrom_scan _ _ _ _ _ _ none serves _ _ ran
    have sorted := Paging.scan_sorted store.positive (store.under_sorted listed) scanned
    have sound := Paging.scan_sound store.positive scanned
    rw [List.nil_append]
    refine ⟨List.pairwise_map.mpr sorted, ?_, ?_, ?_⟩
    · intro object member
      obtain ⟨shown, among, rfl⟩ := List.mem_map.mp member
      obtain ⟨later, bound, present⟩ := sound shown among
      obtain ⟨held, matching⟩ := List.mem_filter.mp present
      exact ⟨matching, later, by omega, shown, held, rfl⟩
    · intro key matching stays
      have throughout : ∀ later, 0 ≤ later → later < 0 + fuel →
          ∃ shown ∈ store.under listed later, shown.name = key := by
        intro later _ bound
        obtain ⟨shown, held, rfl⟩ := stays later (by omega)
        exact ⟨shown, List.mem_filter.mpr ⟨held, matching⟩, rfl⟩
      obtain ⟨shown, among, same⟩ := Paging.scan_complete store.positive
        (store.under_sorted listed) scanned (Paging.behind_none key) throughout
      exact ⟨shown.listed, List.mem_map_of_mem among, same⟩
    · intro constant
      refine congrArg (List.map ShownObject.listed) ?_
      have still : ∀ later < fuel, store.under listed later = store.under listed 0 := by
        intro later bound
        rw [PagedStore.under, constant later bound]
        rfl
      exact Paging.scan_exact store.positive (store.under_sorted listed) scanned still
  · intro keys held
    have among : ∀ turn, ∀ object ∈ store.under listed turn, object.name ∈ keys :=
      fun turn object member => held turn object (List.mem_filter.mp member).1
    have enough : (keys.filter fun key => Paging.Behind none key).card < keys.card + 1 :=
      Nat.lt_succ_of_le (Finset.card_filter_le _ _)
    obtain ⟨found, scanned⟩ := Paging.scan_total store.positive among enough
    obtain ⟨outcome, ran, failures⟩ := @listFrom_ends _ _ _ _ _ _ none serves _ scanned []
    refine ⟨outcome, ran, ?_⟩
    intro error same
    obtain ⟨later, -, failed⟩ := failures error same
    exact ⟨later, failed⟩

end Runs

section Example

/-- A page of one object. -/
def turnTokens (key : List SpelledChar) (token : Option (List SpelledChar)) : List XmlToken :=
  [.elementStart "ListBucketResult", .other ">"] ++
    fieldTokens "IsTruncated" (toString token.isSome) ++
    ([.elementStart "Contents", .other ">"] ++ (fieldTokens "Key" (writtenText key) ++
      (fieldTokens "LastModified" sampleTime ++ fieldTokens "Size" "128")) ++
        [.elementClose "Contents"]) ++
    (token.elim [] fun token => fieldTokens "NextContinuationToken" (writtenText token)) ++
    [.elementClose "ListBucketResult"]

theorem isXmlLiteral_a : isXmlLiteral 'a' = true := by
  decide

def letterA : List SpelledChar := [literalChar 'a' isXmlLiteral_a]
def letterB : List SpelledChar := [literalChar 'b' (by decide)]
def letterC : List SpelledChar := [literalChar 'c' (by decide)]

def turnText (key : List SpelledChar) (token : Option (List SpelledChar)) : String :=
  String.join ((turnTokens key token).map XmlToken.raw)

@[reducible] def turnCrates : ListingCrates where
  tokenize text :=
    if text = turnText letterA (some letterA) then (turnTokens letterA (some letterA)).map .ok
    else if text = turnText letterC none then (turnTokens letterC none).map .ok
    else [.error "unknown token at 1:1"]
  parseFromRfc3339 text := if text = sampleTime then some 1790771696000000000 else none

attribute [local instance] turnCrates

theorem turnTime_read : ListingCrates.parseFromRfc3339 sampleTime = some 1790771696000000000 :=
  rfl

theorem sampleTime_starts : ∀ first ∈ sampleTime.toList.head?, first.isDigit = true := by
  simp [sampleTime]

theorem sampleTime_stops :
    ∀ last ∈ sampleTime.toList.getLast?, last.isDigit = true ∨ last = 'Z' ∨ last = 'z' := by
  simp [sampleTime]

def turnParts : List ContentsPart := [.key, .lastModified, .size]

theorem turnParts_key : .key ∈ turnParts := by
  simp [turnParts]

theorem turnParts_size : .size ∈ turnParts := by
  simp [turnParts]

theorem turnParts_lastModified : .lastModified ∈ turnParts := by
  simp [turnParts]

theorem turnSize_fits : 128 ≤ usizeMax := by
  decide

theorem tagEnd_skipped : ∀ token ∈ [XmlToken.other ">"], token.Skipped := by
  simp [XmlToken.Skipped]

def turnObject (key : List SpelledChar) : ShownObject where
  key := key
  size := 128
  timestamp := sampleTime
  date := 1790771696000000000
  parts := turnParts
  fits := turnSize_fits
  read := turnTime_read
  starts := sampleTime_starts
  stops := sampleTime_stops
  hasKey := turnParts_key
  hasSize := turnParts_size
  hasLastModified := turnParts_lastModified

def turnPage (key : List SpelledChar) (token : Option (List SpelledChar)) : ListingPage where
  truncated := token.isSome
  token := token
  parts := [.isTruncated, .contents (turnObject key), .nextContinuationToken]
  prolog := noFiller
  opening := ⟨[.other ">"], tagEnd_skipped⟩
  epilog := noFiller
  hasFlag := by simp
  hasToken := by simp

theorem turnPage_tokens (key : List SpelledChar) (token : Option (List SpelledChar)) :
    (turnPage key token).tokens = turnTokens key token := by
  have size : toString 128 = "128" := rfl
  cases token <;> simp [ListingPage.tokens, turnPage, turnTokens, noFiller,
    ListingPage.partTokens, ShownObject.tokens, turnObject, turnParts, ShownObject.partTokens, size]

theorem turnPage_text (key : List SpelledChar) (token : Option (List SpelledChar)) :
    (turnPage key token).text = turnText key token := by
  rw [ListingPage.text, turnPage_tokens, turnText]

theorem letters_ordered : plainText letterA < plainText letterB ∧
    plainText letterA < plainText letterC := by
  rw [String.lt_iff_toList_lt, String.lt_iff_toList_lt]
  decide

/-- The object at `b` is deleted and one at `c` is written after the first page. -/
def changingStore : PagedStore where
  contents turn := if turn = 0 then [turnObject letterA, turnObject letterB]
    else [turnObject letterA, turnObject letterC]
  size _ := 1
  tokenOf key := key
  ordered turn := by
    split
    · exact List.pairwise_pair.mpr letters_ordered.1
    · exact List.pairwise_pair.mpr letters_ordered.2
  positive _ := Nat.one_pos

def changingSend (turn : Nat) (query : String) : Except Error Response :=
  if turn = 0 ∧ query = pageQuery "" none then
    .ok ⟨200, .ok (turnPage letterA (some letterA)).text⟩
  else if turn = 1 ∧ query = pageQuery "" (some "a") then
    .ok ⟨200, .ok (turnPage letterC none).text⟩
  else .error (.msg "connection reset")

theorem changingStore_rest : changingStore.rest "" 0 none =
      [turnObject letterA, turnObject letterB] ∧
    changingStore.rest "" 1 (some "a") = [turnObject letterC] := by
  have first : (turnObject letterA).name = "a" := by decide
  have listed : changingStore.under "" 1 = [turnObject letterA, turnObject letterC] := by
    simp [PagedStore.under, changingStore, startsWith]
  have read : ¬ Paging.Behind (some "a") (turnObject letterA).name := by
    rw [Paging.behind_some, first]
    exact lt_irrefl "a"
  have left : Paging.Behind (some "a") (turnObject letterC).name :=
    Paging.behind_some.mpr (lt_of_eq_of_lt first.symm letters_ordered.2)
  constructor
  · simp [PagedStore.rest, PagedStore.under, Paging.remaining, changingStore, startsWith,
      Paging.behind_none]
  · simp [PagedStore.rest, listed, Paging.remaining, read, left]

theorem changingStore_shows : changingStore.Shows "" 0 none (turnPage letterA (some letterA)) ∧
    changingStore.Shows "" 1 (some "a") (turnPage letterC none) := by
  obtain ⟨first, second⟩ := changingStore_rest
  have texts : turnText letterC none ≠ turnText letterA (some letterA) := by
    decide +kernel
  refine ⟨⟨?_, ?_, ?_, ?_, ?_, ?_⟩, ⟨?_, ?_, ?_, ?_, ?_, ?_⟩⟩
  · rw [first]
    rfl
  · rw [first]
    rfl
  · exact fun _ => rfl
  · intro object member
    cases List.mem_singleton.mp member
    exact ⟨by decide, by decide⟩
  · intro token member
    cases Option.mem_some_iff.mp member
    exact ⟨by decide, by decide⟩
  · rw [turnPage_text, turnPage_tokens]
    exact if_pos rfl
  · rw [second]
    rfl
  · rw [second]
    rfl
  · intro more
    cases more
  · intro object member
    cases List.mem_singleton.mp member
    exact ⟨by decide, by decide⟩
  · intro token member
    cases member
  · rw [turnPage_text, turnPage_tokens]
    exact (if_neg texts).trans (if_pos rfl)

theorem changingStore_serves : changingStore.Serves changingSend := by
  intro turn query listed after asks
  unfold changingSend
  split
  · rename_i first
    obtain ⟨rfl, rfl⟩ := first
    obtain ⟨rfl, start⟩ := asks_inj asks
    obtain rfl := Option.map_eq_none_iff.mp start
    exact .page rfl rfl changingStore_shows.1
  · split
    · rename_i second
      obtain ⟨rfl, rfl⟩ := second
      obtain ⟨rfl, token⟩ := asks_inj asks
      obtain ⟨_, rfl, rfl⟩ := Option.map_eq_some_iff.mp token
      exact .page rfl rfl changingStore_shows.2
    · exact .failed _

theorem changingSend_listed : listDetailed changingSend "" 4 =
    some (.ok [(turnObject letterA).listed, (turnObject letterC).listed]) := by
  have first : fetchPage (changingSend 0) "" none =
      .ok ([(turnObject letterA).listed], true, some "a") := by
    have read := (parseListing_exact_iff (turnPage letterA (some letterA)) ""
      changingStore_shows.1.tokenized).mpr
        ⟨changingStore_shows.1.plainKeys, changingStore_shows.1.plainToken⟩
    have sent : changingSend 0 (pageQuery "" none) =
        .ok ⟨200, .ok (turnPage letterA (some letterA)).text⟩ := if_pos ⟨rfl, rfl⟩
    rw [fetchPage, sent, ok_bind]
    exact read
  have second : fetchPage (changingSend 1) "" (some "a") =
      .ok ([(turnObject letterC).listed], false, none) := by
    have read := (parseListing_exact_iff (turnPage letterC none) ""
      changingStore_shows.2.tokenized).mpr
        ⟨changingStore_shows.2.plainKeys, changingStore_shows.2.plainToken⟩
    have sent : changingSend 1 (pageQuery "" (some "a")) =
        .ok ⟨200, .ok (turnPage letterC none).text⟩ :=
      (if_neg fun wrong => Nat.one_ne_zero wrong.1).trans (if_pos ⟨rfl, rfl⟩)
    rw [fetchPage, sent, ok_bind]
    exact read
  rw [listDetailed, listFrom_more first, listFrom_last second]
  rfl

/-- The page that was read before the change and the one after it, together. -/
theorem listDetailed_changing_twice :
    changingStore.Listing "" 4 [(turnObject letterA).listed, (turnObject letterC).listed] ∧
    ∃ outcome, listDetailed changingSend "" 4 = some outcome ∧ ∀ error, outcome = .error error →
      ∃ turn token, fetchPage (changingSend turn) "" token = .error error := by
  have whole := listDetailed_changing changingStore_serves ""
  have keys : ∀ turn, ∀ object ∈ changingStore.contents turn,
      object.name ∈ ({"a", "b", "c"} : Finset String) := by
    intro turn object member
    unfold changingStore at member
    dsimp only at member
    split at member
    · rcases List.mem_pair.mp member with rfl | rfl
      · decide
      · decide
    · rcases List.mem_pair.mp member with rfl | rfl
      · decide
      · decide
  have size : ({"a", "b", "c"} : Finset String).card + 1 = 4 := by decide
  exact ⟨whole.1 4 _ changingSend_listed, size ▸ whole.2 _ keys⟩

end Example

end AgentTranscript
