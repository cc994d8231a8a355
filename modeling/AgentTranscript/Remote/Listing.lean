import AgentTranscript.Basic
import AgentTranscript.Library.Loop
import AgentTranscript.Remote.Unescape
import AgentTranscript.Views.Fragment

/-!
The listing of a bucket: the state machine over the tokens of a page, the pages that a store
may write, and what is read from them.
-/

set_option autoImplicit false

namespace AgentTranscript

open Loop

section Definitions

/-- The tokens of `xmlparser`; `other` are attributes, ends of start tags, comments and
declarations. -/
inductive XmlToken where
  | elementStart (name : String)
  | text (part : String)
  | cdata (part : String)
  | elementClose (name : String)
  | other (raw : String)
  deriving DecidableEq, Repr

/-- What xmlparser and chrono read: the tokens of a text up to the first error, and an RFC 3339
time in UTC. -/
class ListingCrates where
  tokenize : String → List (Except String XmlToken)
  parseFromRfc3339 : String → Option DateTime

/-- `Listed`, with the size. -/
structure ListedObject where
  key : String
  size : Nat
  lastModified : Option DateTime
  deriving DecidableEq, Repr

structure ListingState where
  objects : List ListedObject
  truncated : Bool
  nextToken : Option String
  inContents : Bool
  current : ListedObject
  text : String
  deriving DecidableEq, Repr

def blankObject : ListedObject where
  key := ""
  size := 0
  lastModified := none

def ListingState.initial : ListingState where
  objects := []
  truncated := false
  nextToken := none
  inContents := false
  current := blankObject
  text := ""

variable [ListingCrates]

/-- The end tag of an element, with the text since the last tag. -/
def closeElement (listed : String) (state : ListingState) (name : String) :
    Except Error ListingState :=
  let text := trim state.text
  if state.inContents then
    match name with
    | "Key" => .ok { state with current.key := unescape text }
    | "Size" =>
        match parseUnsigned 10 (2 ^ 64) text with
        | some size => .ok { state with current.size := size }
        | none => .error (.msg s!"listing `{listed}` has a non-numeric object size")
    | "LastModified" =>
        .ok { state with current.lastModified := ListingCrates.parseFromRfc3339 text }
    | "Contents" =>
        .ok { state with
          inContents := false
          objects := state.objects ++ [state.current]
          current.key := "" }
    | _ => .ok state
  else
    match name with
    | "IsTruncated" => .ok { state with truncated := text = "true" }
    | "NextContinuationToken" => .ok { state with nextToken := some (unescape text) }
    | _ => .ok state

def listingStep (listed : String) (state : ListingState) :
    Except String XmlToken → Except Error ListingState
  | .error error => .error (.msg s!"listing `{listed}` returned invalid XML: {error}")
  | .ok (.elementStart name) =>
      if name = "Contents" then
        .ok { state with inContents := true, current := blankObject, text := "" }
      else .ok { state with text := "" }
  | .ok (.text part) => .ok { state with text := state.text ++ part }
  | .ok (.cdata part) => .ok { state with text := state.text ++ part }
  | .ok (.elementClose name) => do
      let closed ← closeElement listed state name
      .ok { closed with text := "" }
  | .ok (.other _) => .ok state

def parseListing (xml listed : String) :
    Except Error (List ListedObject × Bool × Option String) := do
  let state ← (ListingCrates.tokenize xml).foldlM (listingStep listed) .initial
  .ok (state.objects, state.truncated, state.nextToken)

end Definitions

section Pages

def XmlToken.raw : XmlToken → String
  | .elementStart name => "<" ++ name
  | .text part => part
  | .cdata part => "<![CDATA[" ++ part ++ "]]>"
  | .elementClose name => "</" ++ name ++ ">"
  | .other raw => raw

def listingNames : List String :=
  ["Contents", "Key", "Size", "LastModified", "IsTruncated", "NextContinuationToken"]

/-- Tokens of white space and of elements that a listing is not read for. -/
def XmlToken.Skipped : XmlToken → Prop
  | .elementStart name => name ∉ listingNames
  | .elementClose name => name ∉ listingNames
  | _ => True

structure Filler where
  tokens : List XmlToken
  skipped : ∀ token ∈ tokens, token.Skipped

def fieldTokens (name text : String) : List XmlToken :=
  [.elementStart name, .other ">"] ++ (if text = "" then [] else [.text text]) ++
    [.elementClose name]

inductive ContentsPart where
  | key
  | size
  | lastModified
  | filler (between : Filler)

variable [ListingCrates]

/-- An object as a page shows it: its key in some spelling, its size, its time as RFC 3339 and
the order of its elements. -/
structure ShownObject where
  key : List SpelledChar
  size : Nat
  timestamp : String
  date : DateTime
  parts : List ContentsPart
  fits : size ≤ usizeMax
  read : ListingCrates.parseFromRfc3339 timestamp = some date
  starts : ∀ first ∈ timestamp.toList.head?, first.isDigit = true
  stops : ∀ last ∈ timestamp.toList.getLast?, last.isDigit = true ∨ last = 'Z' ∨ last = 'z'
  hasKey : .key ∈ parts
  hasSize : .size ∈ parts
  hasLastModified : .lastModified ∈ parts

def ShownObject.partTokens (object : ShownObject) : ContentsPart → List XmlToken
  | .key => fieldTokens "Key" (writtenText object.key)
  | .size => fieldTokens "Size" (toString object.size)
  | .lastModified => fieldTokens "LastModified" object.timestamp
  | .filler between => between.tokens

def ShownObject.tokens (object : ShownObject) : List XmlToken :=
  [.elementStart "Contents", .other ">"] ++ object.parts.flatMap object.partTokens ++
    [.elementClose "Contents"]

def ShownObject.listed (object : ShownObject) : ListedObject where
  key := plainText object.key
  size := object.size
  lastModified := some object.date

inductive PagePart where
  | contents (object : ShownObject)
  | isTruncated
  | nextContinuationToken
  | filler (between : Filler)

/-- A page of a listing: its parts in order, with the declaration before it, the rest of its
start tag and what follows it. -/
structure ListingPage where
  truncated : Bool
  token : Option (List SpelledChar)
  parts : List PagePart
  prolog : Filler
  opening : Filler
  epilog : Filler
  hasFlag : .isTruncated ∈ parts
  hasToken : token.isSome → .nextContinuationToken ∈ parts

def ListingPage.partTokens (page : ListingPage) : PagePart → List XmlToken
  | .contents object => object.tokens
  | .isTruncated => fieldTokens "IsTruncated" (toString page.truncated)
  | .nextContinuationToken =>
      page.token.elim [] fun token => fieldTokens "NextContinuationToken" (writtenText token)
  | .filler between => between.tokens

def ListingPage.tokens (page : ListingPage) : List XmlToken :=
  page.prolog.tokens ++ [.elementStart "ListBucketResult"] ++ page.opening.tokens ++
    page.parts.flatMap page.partTokens ++ [.elementClose "ListBucketResult"] ++ page.epilog.tokens

def ListingPage.text (page : ListingPage) : String :=
  String.join (page.tokens.map XmlToken.raw)

def PagePart.object? : PagePart → Option ShownObject
  | .contents object => some object
  | _ => none

def ListingPage.objects (page : ListingPage) : List ShownObject :=
  page.parts.filterMap PagePart.object?

end Pages

section Steps

variable [ListingCrates] {listed name text : String} {state : ListingState}

/-- The tokens of a field give its text to its end tag. -/
def readTokens (listed : String) (state : ListingState) (tokens : List XmlToken) :
    Except Error ListingState :=
  (tokens.map .ok).foldlM (listingStep listed) state

theorem readTokens_nil : readTokens listed state [] = .ok state := rfl

theorem readTokens_cons (token : XmlToken) (rest : List XmlToken) :
    readTokens listed state (token :: rest) =
      listingStep listed state (.ok token) >>= fun next => readTokens listed next rest := rfl

theorem readTokens_append (tokens rest : List XmlToken) :
    readTokens listed state (tokens ++ rest) =
      readTokens listed state tokens >>= fun next => readTokens listed next rest := by
  rw [readTokens, List.map_append, List.foldlM_append]
  rfl

theorem closeElement_unknown (unknown : name ∉ listingNames) (state : ListingState) :
    closeElement listed state name = .ok state := by
  simp only [listingNames, List.mem_cons, List.not_mem_nil, or_false, not_or] at unknown
  unfold closeElement
  cases state.inContents with
  | true =>
      dsimp only
      split <;> simp_all
  | false =>
      dsimp only
      split <;> simp_all

theorem listingStep_skipped (listed : String) {token : XmlToken} (skipped : token.Skipped)
    (state : ListingState) :
    ∃ text, listingStep listed state (.ok token) = .ok { state with text := text } := by
  cases token with
  | elementStart name =>
      have other : name ≠ "Contents" := by
        rintro rfl
        exact skipped (by decide)
      exact ⟨"", if_neg other⟩
  | text part => exact ⟨_, rfl⟩
  | cdata part => exact ⟨_, rfl⟩
  | elementClose name =>
      refine ⟨"", ?_⟩
      rw [listingStep, closeElement_unknown skipped, ok_bind]
  | other raw => exact ⟨state.text, rfl⟩

variable (listed) in
/-- Nothing between the elements matters, except for the text that the next tag clears. -/
theorem readTokens_skipped (tokens : List XmlToken) (skipped : ∀ token ∈ tokens, token.Skipped)
    (state : ListingState) :
    ∃ text, readTokens listed state tokens = .ok { state with text := text } := by
  induction tokens generalizing state with
  | nil => exact ⟨state.text, rfl⟩
  | cons token rest ih =>
      obtain ⟨first, stepped⟩ :=
        listingStep_skipped listed (skipped token List.mem_cons_self) state
      obtain ⟨text, read⟩ := ih (fun other member => skipped other (List.mem_cons_of_mem token member))
        { state with text := first }
      exact ⟨text, by rw [readTokens_cons, stepped, ok_bind, read]⟩

/-- A field's text is what its end tag gets, and no text is left. -/
theorem readTokens_field (other : name ≠ "Contents") {closed : ListingState}
    (ends : closeElement listed { state with text := text } name = .ok closed) :
    readTokens listed state (fieldTokens name text) = .ok { closed with text := "" } := by
  have start : listingStep listed state (.ok (.elementStart name)) =
      .ok { state with text := "" } := if_neg other
  have finish : ∀ current, current = { state with text := text } →
      listingStep listed current (.ok (.elementClose name)) = .ok { closed with text := "" } := by
    rintro _ rfl
    rw [listingStep, ends, ok_bind]
  by_cases empty : text = ""
  · rw [fieldTokens, if_pos empty, List.append_nil, List.cons_append, readTokens_cons, start,
      ok_bind, List.cons_append, readTokens_cons]
    change readTokens listed { state with text := "" } [.elementClose name] = _
    rw [readTokens_cons, finish _ (by rw [empty]), ok_bind, readTokens_nil]
  · rw [fieldTokens, if_neg empty, List.append_assoc, List.cons_append, readTokens_cons, start,
      ok_bind, List.cons_append, readTokens_cons]
    change readTokens listed { state with text := "" ++ text } [.elementClose name] = _
    rw [String.empty_append, readTokens_cons, finish _ rfl, ok_bind, readTokens_nil]

end Steps

section Texts

/-- Digits, and what stands at the ends of a time, are no white space. -/
theorem trim_eq_self_of_ends {text : String}
    (starts : ∀ first ∈ text.toList.head?, isWhitespace first = false)
    (stops : ∀ last ∈ text.toList.getLast?, isWhitespace last = false) : trim text = text := by
  have front : text.toList.dropWhile isWhitespace = text.toList := by
    cases chars : text.toList with
    | nil => rfl
    | cons first rest =>
        rw [List.dropWhile_cons_of_neg]
        rw [starts first (by simp [chars])]
        exact Bool.false_ne_true
  have back : text.toList.rdropWhile isWhitespace = text.toList := by
    rw [List.rdropWhile_eq_self_iff]
    intro nonempty
    rw [stops _ (List.getLast_mem_getLast? nonempty)]
    exact Bool.false_ne_true
  rw [trim, front, back, String.ofList_toList]

theorem isWhitespace_of_isDigit {char : Char} (digit : char.isDigit = true) :
    isWhitespace char = false := by
  have code : 48 ≤ char.toNat ∧ char.toNat ≤ 57 := by
    simpa [Char.isDigit, Char.le_def, UInt32.le_iff_toNat_le] using digit
  simp [isWhitespace]
  omega

theorem digitValue_of_isDigit {char : Char} (digit : char.isDigit = true) :
    digitValue 10 char = some (char.toNat - 48) := by
  have code : 48 ≤ char.toNat ∧ char.toNat ≤ 57 := by
    simpa [Char.isDigit, Char.le_def, UInt32.le_iff_toNat_le] using digit
  have decimal : ('0' ≤ char && char ≤ '9') = true := digit
  simp only [digitValue, decimal, if_true, Option.filter_some]
  rw [if_pos]
  rw [decide_eq_true_iff]
  omega

theorem foldlM_digits {chars : List Char} (digits : ∀ char ∈ chars, char.isDigit = true)
    (start : Nat) : chars.foldlM (fun number char =>
      (digitValue 10 char).map (10 * number + ·)) start = some (Nat.ofDigitChars 10 chars start) := by
  induction chars generalizing start with
  | nil => simp
  | cons char rest ih =>
      rw [List.foldlM_cons, digitValue_of_isDigit (digits char List.mem_cons_self),
        Nat.ofDigitChars_cons]
      exact ih (fun other member => digits other (List.mem_cons_of_mem char member)) _

variable [ListingCrates]

theorem ShownObject.size_read (object : ShownObject) :
    parseUnsigned 10 (2 ^ 64) (trim (toString object.size)) = some object.size := by
  have number := isBound_toString object.fits
  have numeral : IsNumeral 10 (toString object.size) object.size :=
    ⟨number.nonempty, (foldlM_digits number.digits 0).trans (congrArg some number.value)⟩
  have dense : ∀ char ∈ (toString object.size).toList, isWhitespace char = false :=
    fun char member => isWhitespace_of_isDigit (number.digits char member)
  have below : object.size < 2 ^ 64 := Nat.lt_of_le_of_lt object.fits (by decide)
  rw [trim_eq_self dense, parseUnsigned_numeral (by decide) numeral below]

theorem ShownObject.timestamp_read (object : ShownObject) :
    ListingCrates.parseFromRfc3339 (trim object.timestamp) = some object.date := by
  rw [trim_eq_self_of_ends, object.read]
  · exact fun first member => isWhitespace_of_isDigit (object.starts first member)
  · intro last member
    rcases object.stops last member with digit | rfl | rfl
    · exact isWhitespace_of_isDigit digit
    · decide
    · decide

omit [ListingCrates] in
theorem flag_read (flag : Bool) : decide (trim (toString flag) = "true") = flag := by
  cases flag <;> decide

end Texts

section Contents

variable [ListingCrates] {listed : String} {state : ListingState}

/-- The object as the code reads it. -/
def ShownObject.readAs (object : ShownObject) : ListedObject where
  key := unescape (trim (writtenText object.key))
  size := object.size
  lastModified := some object.date

/-- What a part of an object's element sets. -/
def ShownObject.fill (object : ShownObject) (current : ListedObject) :
    ContentsPart → ListedObject
  | .key => { current with key := object.readAs.key }
  | .size => { current with size := object.size }
  | .lastModified => { current with lastModified := some object.date }
  | .filler _ => current

variable (listed) in
theorem readTokens_part (object : ShownObject) (inside : state.inContents = true)
    (part : ContentsPart) :
    ∃ text, readTokens listed state (object.partTokens part) =
      .ok { state with current := object.fill state.current part, text := text } := by
  cases part with
  | key =>
      have ends : closeElement listed { state with text := writtenText object.key } "Key" =
          .ok { state with
            current := object.fill state.current .key
            text := writtenText object.key } := by
        simp only [closeElement, inside, if_true]
        rfl
      exact ⟨"", readTokens_field (by decide) ends⟩
  | size =>
      have ends : closeElement listed { state with text := toString object.size } "Size" =
          .ok { state with
            current := object.fill state.current .size
            text := toString object.size } := by
        simp only [closeElement, inside, if_true, object.size_read]
        rfl
      exact ⟨"", readTokens_field (by decide) ends⟩
  | lastModified =>
      have ends : closeElement listed { state with text := object.timestamp } "LastModified" =
          .ok { state with
            current := object.fill state.current .lastModified
            text := object.timestamp } := by
        simp only [closeElement, inside, if_true, object.timestamp_read]
        rfl
      exact ⟨"", readTokens_field (by decide) ends⟩
  | filler between => exact readTokens_skipped listed between.tokens between.skipped state

variable (listed) in
theorem readTokens_parts (object : ShownObject) (parts : List ContentsPart)
    (inside : state.inContents = true) :
    ∃ text, readTokens listed state (parts.flatMap object.partTokens) =
      .ok { state with current := parts.foldl object.fill state.current, text := text } := by
  induction parts generalizing state with
  | nil => exact ⟨state.text, rfl⟩
  | cons part rest ih =>
      obtain ⟨between, first⟩ := readTokens_part listed object inside part
      obtain ⟨text, later⟩ := @ih { state with
        current := object.fill state.current part, text := between } inside
      exact ⟨text, by rw [List.flatMap_cons, readTokens_append, first, ok_bind, later]; rfl⟩

/-- The parts set every field, whatever was there. -/
theorem ShownObject.fill_all (object : ShownObject) (current : ListedObject) :
    object.parts.foldl object.fill current = object.readAs := by
  have filled := @foldl_invariant _ _ object.fill object.parts current
    (fun seen current => (.key ∈ seen → current.key = object.readAs.key) ∧
      (.size ∈ seen → current.size = object.size) ∧
      (.lastModified ∈ seen → current.lastModified = some object.date))
    (by simp) ?_
  · obtain ⟨key, size, date⟩ := filled
    generalize object.parts.foldl object.fill current = final at key size date
    obtain ⟨name, length, modified⟩ := final
    cases key object.hasKey
    cases size object.hasSize
    cases date object.hasLastModified
    rfl
  · intro seen part rest state split holds
    cases part <;> simp_all [ShownObject.fill]

theorem readTokens_object (object : ShownObject) (state : ListingState) :
    readTokens listed state object.tokens = .ok { state with
      objects := state.objects ++ [object.readAs]
      inContents := false
      current := { object.readAs with key := "" }
      text := "" } := by
  have start : listingStep listed state (.ok (.elementStart "Contents")) =
      .ok { state with inContents := true, current := blankObject, text := "" } := rfl
  obtain ⟨text, read⟩ := @readTokens_parts _ listed
    { state with inContents := true, current := blankObject, text := "" } object object.parts rfl
  rw [ShownObject.tokens, List.append_assoc, List.cons_append, readTokens_cons, start, ok_bind,
    List.cons_append, readTokens_cons]
  change readTokens listed _ ([] ++ (object.parts.flatMap object.partTokens ++ _)) = _
  rw [List.nil_append, readTokens_append, read, ok_bind, object.fill_all]
  rfl

end Contents

section Page

variable [ListingCrates] {listed : String} {state : ListingState}

def ListingState.result (state : ListingState) : List ListedObject × Bool × Option String :=
  (state.objects, state.truncated, state.nextToken)

/-- The continuation token as the code reads it. -/
def ListingPage.readToken (page : ListingPage) : Option String :=
  page.token.map fun token => unescape (trim (writtenText token))

/-- What a part of a page adds to the result. -/
def ListingPage.fill (page : ListingPage) (result : List ListedObject × Bool × Option String) :
    PagePart → List ListedObject × Bool × Option String
  | .contents object => (result.1 ++ [object.readAs], result.2)
  | .isTruncated => (result.1, page.truncated, result.2.2)
  | .nextContinuationToken => (result.1, result.2.1, page.readToken.or result.2.2)
  | .filler _ => result

variable (listed) in
theorem readTokens_pagePart (page : ListingPage) (outside : state.inContents = false)
    (part : PagePart) :
    ∃ next, readTokens listed state (page.partTokens part) = .ok next ∧
      next.inContents = false ∧ next.result = page.fill state.result part := by
  cases part with
  | contents object => exact ⟨_, readTokens_object object state, rfl, rfl⟩
  | isTruncated =>
      have ends : closeElement listed { state with text := toString page.truncated }
          "IsTruncated" = .ok { state with
            text := toString page.truncated
            truncated := page.truncated } := by
        simp only [closeElement, outside, flag_read]
        rfl
      exact ⟨_, readTokens_field (by decide) ends, outside, rfl⟩
  | nextContinuationToken =>
      cases shown : page.token with
      | none =>
          refine ⟨state, ?_, outside, ?_⟩
          · simp [ListingPage.partTokens, shown, readTokens_nil]
          · simp [ListingPage.fill, ListingPage.readToken, shown, ListingState.result]
      | some token =>
          have ends : closeElement listed { state with text := writtenText token }
              "NextContinuationToken" = .ok { state with
                text := writtenText token
                nextToken := some (unescape (trim (writtenText token))) } := by
            simp only [closeElement, outside]
            rfl
          refine ⟨{ state with
            text := ""
            nextToken := some (unescape (trim (writtenText token))) }, ?_, outside, ?_⟩
          · simp only [ListingPage.partTokens, shown]
            exact readTokens_field (by decide) ends
          · simp [ListingPage.fill, ListingPage.readToken, shown, ListingState.result]
  | filler between =>
      obtain ⟨text, read⟩ := readTokens_skipped listed between.tokens between.skipped state
      exact ⟨_, read, outside, rfl⟩

variable (listed) in
theorem readTokens_pageParts (page : ListingPage) (parts : List PagePart)
    (outside : state.inContents = false) :
    ∃ next, readTokens listed state (parts.flatMap page.partTokens) = .ok next ∧
      next.inContents = false ∧ next.result = parts.foldl page.fill state.result := by
  induction parts generalizing state with
  | nil => exact ⟨state, rfl, outside, rfl⟩
  | cons part rest ih =>
      obtain ⟨between, first, left, filled⟩ := readTokens_pagePart listed page outside part
      obtain ⟨next, later, final, whole⟩ := ih left
      refine ⟨next, ?_, final, ?_⟩
      · rw [List.flatMap_cons, readTokens_append, first, ok_bind, later]
      · rw [whole, filled, List.foldl_cons]

theorem ListingPage.fill_all (page : ListingPage) :
    page.parts.foldl page.fill ([], false, none) =
      (page.objects.map ShownObject.readAs, page.truncated, page.readToken) := by
  have filled := @foldl_invariant _ _ page.fill page.parts ([], false, none)
    (fun seen result => result.1 = (seen.filterMap PagePart.object?).map ShownObject.readAs ∧
      (.isTruncated ∈ seen → result.2.1 = page.truncated) ∧
      (.nextContinuationToken ∈ seen → result.2.2 = page.readToken) ∧
      (page.readToken = none → result.2.2 = none))
    (by simp) ?_
  · obtain ⟨objects, flag, token, absent⟩ := filled
    generalize page.parts.foldl page.fill ([], false, none) = final at objects flag token absent
    obtain ⟨list, truncated, next⟩ := final
    cases objects
    cases flag page.hasFlag
    have tokens : next = page.readToken := by
      cases shown : page.token with
      | none =>
          have none : page.readToken = none := by simp [ListingPage.readToken, shown]
          exact (absent none).trans none.symm
      | some _ => exact token (page.hasToken (by simp [shown]))
    rw [tokens]
    rfl
  · intro seen part rest result split holds
    cases part <;> simp_all [ListingPage.fill, PagePart.object?]
    cases read : page.readToken <;> simp_all

/-- What is read from any page: the keys and the token are trimmed before they are decoded. -/
theorem parseListing_page (page : ListingPage) (listed : String)
    (tokenized : ListingCrates.tokenize page.text = page.tokens.map .ok) :
    parseListing page.text listed =
      .ok (page.objects.map ShownObject.readAs, page.truncated, page.readToken) := by
  have unknown : "ListBucketResult" ∉ listingNames := by decide
  have front : ∀ token ∈ page.prolog.tokens ++ [.elementStart "ListBucketResult"] ++
      page.opening.tokens, token.Skipped := by
    intro token member
    rcases List.mem_append.mp member with earlier | later
    · rcases List.mem_append.mp earlier with prolog | root
      · exact page.prolog.skipped token prolog
      · exact List.mem_singleton.mp root ▸ unknown
    · exact page.opening.skipped token later
  have back : ∀ token ∈ [XmlToken.elementClose "ListBucketResult"] ++ page.epilog.tokens,
      token.Skipped := by
    intro token member
    rcases List.mem_append.mp member with root | later
    · exact List.mem_singleton.mp root ▸ unknown
    · exact page.epilog.skipped token later
  obtain ⟨text, started⟩ := readTokens_skipped listed _ front .initial
  obtain ⟨next, filled, -, result⟩ := @readTokens_pageParts _ listed
    { ListingState.initial with text := text } page page.parts rfl
  obtain ⟨rest, finished⟩ := readTokens_skipped listed _ back next
  have read : readTokens listed .initial page.tokens = .ok { next with text := rest } := by
    rw [ListingPage.tokens, List.append_assoc, readTokens_append, readTokens_append, started, ok_bind,
      filled, ok_bind, finished]
  have parts := result.trans page.fill_all
  rw [parseListing, tokenized]
  change readTokens listed .initial page.tokens >>= _ = _
  rw [read, ok_bind]
  exact congrArg Except.ok parts

/-- The page gives back what it shows exactly when no key and no token has white space written
literally at its ends. -/
theorem parseListing_exact_iff (page : ListingPage) (listed : String)
    (tokenized : ListingCrates.tokenize page.text = page.tokens.map .ok) :
    parseListing page.text listed =
        .ok (page.objects.map ShownObject.listed, page.truncated, page.token.map plainText) ↔
      (∀ object ∈ page.objects, EndsPlain object.key) ∧ ∀ token ∈ page.token, EndsPlain token := by
  have keys : page.objects.map ShownObject.readAs = page.objects.map ShownObject.listed ↔
      ∀ object ∈ page.objects, EndsPlain object.key := by
    rw [List.map_inj_left]
    refine forall₂_congr fun object _ => ?_
    rw [← unescape_trim_iff, ShownObject.readAs, ShownObject.listed, ListedObject.mk.injEq]
    simp
  have tokens : page.readToken = page.token.map plainText ↔
      ∀ token ∈ page.token, EndsPlain token := by
    cases shown : page.token with
    | none => simp [ListingPage.readToken, shown]
    | some token => simp [ListingPage.readToken, shown, unescape_trim_iff]
  rw [parseListing_page page listed tokenized, ← keys, ← tokens]
  simp

end Page

section Example

def literalChar (char : Char) (allowed : isXmlLiteral char = true) : SpelledChar :=
  ⟨char, String.singleton char, .literal allowed⟩

def sampleTime : String := "2026-09-30T12:34:56.000Z"

/-- A page with one object under a key. -/
def sampleTokens (key : List SpelledChar) : List XmlToken :=
  [.elementStart "ListBucketResult", .other ">"] ++ fieldTokens "IsTruncated" "false" ++
    ([.elementStart "Contents", .other ">"] ++ (fieldTokens "Key" (writtenText key) ++
      (fieldTokens "LastModified" sampleTime ++ fieldTokens "Size" "128")) ++
        [.elementClose "Contents"]) ++ [.elementClose "ListBucketResult"]

@[reducible] def sampleCrates (key : List SpelledChar) : ListingCrates where
  tokenize text :=
    if text = String.join ((sampleTokens key).map XmlToken.raw) then (sampleTokens key).map .ok
    else [.error "unknown token at 1:1"]
  parseFromRfc3339 text := if text = sampleTime then some 1790771696000000000 else none

def sampleObject (key : List SpelledChar) : @ShownObject (sampleCrates key) :=
  letI := sampleCrates key
  { key := key
    size := 128
    timestamp := sampleTime
    date := 1790771696000000000
    parts := [.key, .lastModified, .size]
    fits := by decide
    read := rfl
    starts := by simp [sampleTime]
    stops := by simp [sampleTime]
    hasKey := by simp
    hasSize := by simp
    hasLastModified := by simp }

def noFiller : Filler where
  tokens := []
  skipped := by simp

def samplePage (key : List SpelledChar) : @ListingPage (sampleCrates key) :=
  letI := sampleCrates key
  { truncated := false
    token := none
    parts := [.isTruncated, .contents (sampleObject key)]
    prolog := noFiller
    opening := ⟨[.other ">"], by simp [XmlToken.Skipped]⟩
    epilog := noFiller
    hasFlag := by simp
    hasToken := by simp }

theorem samplePage_tokens (key : List SpelledChar) :
    @ListingPage.tokens (sampleCrates key) (samplePage key) = sampleTokens key := by
  have flag : toString false = "false" := rfl
  have size : toString 128 = "128" := rfl
  simp [ListingPage.tokens, samplePage, sampleTokens, noFiller, ListingPage.partTokens,
    ShownObject.tokens, sampleObject, ShownObject.partTokens, flag, size]

theorem samplePage_tokenized (key : List SpelledChar) :
    (sampleCrates key).tokenize (@ListingPage.text (sampleCrates key) (samplePage key)) =
      (@ListingPage.tokens (sampleCrates key) (samplePage key)).map .ok := by
  rw [@ListingPage.text.eq_1, samplePage_tokens]
  exact if_pos rfl

/-- A letter, and an ampersand written as a reference. -/
def ampersandKey : List SpelledChar :=
  [literalChar 'a' (by decide), ⟨'&', "&amp;", .named (by decide : ("amp", '&') ∈ _)⟩]

theorem ampersandKey_read :
    @parseListing (sampleCrates ampersandKey)
        (@ListingPage.text (sampleCrates ampersandKey) (samplePage ampersandKey)) "v1/" =
      .ok ([⟨"a&", 128, some 1790771696000000000⟩], false, none) := by
  refine (@parseListing_exact_iff (sampleCrates ampersandKey) (samplePage ampersandKey) "v1/"
    (samplePage_tokenized ampersandKey)).mpr ⟨?_, ?_⟩
  · intro object member
    cases List.mem_singleton.mp member
    exact ⟨by decide, by decide⟩
  · intro token shown
    cases shown

/-- A key that ends in a space, written as it is. -/
def spacedKey : List SpelledChar :=
  [literalChar 'v' (by decide), literalChar '1' (by decide), literalChar '/' (by decide),
    literalChar 'a' (by decide), literalChar ' ' (by decide)]

/-- The key loses its space. -/
theorem spacedKey_trimmed :
    (sampleCrates spacedKey).tokenize
        (@ListingPage.text (sampleCrates spacedKey) (samplePage spacedKey)) =
      (@ListingPage.tokens (sampleCrates spacedKey) (samplePage spacedKey)).map .ok ∧
    plainText spacedKey = "v1/a " ∧
    @parseListing (sampleCrates spacedKey)
        (@ListingPage.text (sampleCrates spacedKey) (samplePage spacedKey)) "v1/" =
      .ok ([⟨"v1/a", 128, some 1790771696000000000⟩], false, none) := by
  refine ⟨samplePage_tokenized spacedKey, rfl, ?_⟩
  rw [@parseListing_page (sampleCrates spacedKey) (samplePage spacedKey) "v1/"
    (samplePage_tokenized spacedKey)]
  have read : unescape (trim (writtenText spacedKey)) = "v1/a" := by
    have trimmed : trim (writtenText spacedKey) = "v1/a" := by decide
    rw [trimmed]
    exact unescape_plain (by simp)
  have object : @ShownObject.readAs (sampleCrates spacedKey) (sampleObject spacedKey) =
      ⟨"v1/a", 128, some 1790771696000000000⟩ := by
    rw [@ShownObject.readAs.eq_1]
    exact congrArg (fun key => (⟨key, 128, some 1790771696000000000⟩ : ListedObject)) read
  exact congrArg (fun object => Except.ok ([object], false, none)) object

end Example

end AgentTranscript
