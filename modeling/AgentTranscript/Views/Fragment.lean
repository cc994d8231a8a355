import AgentTranscript.Text

/-!
References to ranges of messages. A reference is a source, a number sign and 1-based
inclusive bounds; a span is 0-based and excludes its end.
-/

set_option autoImplicit false

namespace AgentTranscript

section Definitions

/-- `usize` on a 64-bit target. -/
def usizeMax : Nat := 2 ^ 64 - 1

structure Span where
  start : Nat
  stop : Nat
  deriving DecidableEq, Repr

def Span.length (span : Span) : Nat :=
  span.stop - span.start

structure SpanReq where
  start : Option Nat
  stop : Option Nat
  deriving DecidableEq, Repr

/-- `parse::<usize>` of a run of digits. -/
def parseUsize (digits : String) : Option Nat :=
  let number := Nat.ofDigitChars 10 digits.toList 0
  if number ≤ usizeMax then some number else none

def bound (text : String) : Option (Option Nat) :=
  if text.isEmpty then some none
  else if text.toList.all Char.isDigit then (parseUsize text).map some
  else none

def parseRange (input : String) : Option SpanReq :=
  match splitOnce input '-' with
  | none => do
      let number ← bound input
      number.map fun number => ⟨some number, some number⟩
  | some (start, stop) =>
      if start.isEmpty && stop.isEmpty then none
      else do
        let first ← bound start
        let last ← bound stop
        some ⟨first, last⟩

def parseRef (input : String) : String × Option SpanReq :=
  match rsplitOnce input '#' with
  | none => (input, none)
  | some (source, suffix) =>
      match source.isEmpty, parseRange suffix with
      | false, some req => (source, some req)
      | _, _ => (input, none)

def SpanReq.display (req : SpanReq) : String :=
  let ends := "#" ++ req.start.elim "" toString ++ "-" ++ req.stop.elim "" toString
  match req.start, req.stop with
  | some start, some stop => if start = stop then "#" ++ toString start else ends
  | _, _ => ends

def SpanReq.resolve (req : SpanReq) (length : Nat) : Except String Span :=
  let start := req.start.getD 1
  let stop := req.stop.getD length
  let shown := req.display
  if start = 0 ∨ stop = 0 then .error s!"message numbers are 1-based — `{shown}` has a 0"
  else if start > stop then .error s!"range `{shown}` is inverted"
  else if stop > length then
    .error s!"range `{shown}` is out of bounds — the session has {length} messages"
  else .ok ⟨start - 1, stop⟩

def formatSpan (span : Span) : String :=
  if span.length = 1 then "#" ++ toString (span.start + 1)
  else "#" ++ toString (span.start + 1) ++ "-" ++ toString span.stop

example : (parseRef "abc#5-12").2.map (·.resolve 20) = some (.ok ⟨4, 12⟩) := by decide +kernel
example : parseRef "title#anchor" = ("title#anchor", none) := by decide +kernel

end Definitions

section Ranges

/-- A run of digits that fits `usize`, with its number. -/
structure IsBound (text : String) (number : Nat) : Prop where
  nonempty : text ≠ ""
  digits : ∀ char ∈ text.toList, char.isDigit = true
  value : Nat.ofDigitChars 10 text.toList 0 = number
  fits : number ≤ usizeMax

/-- The suffixes that are ranges. -/
inductive RangeText : String → SpanReq → Prop where
  | single {text : String} {number : Nat} (only : IsBound text number) :
      RangeText text ⟨some number, some number⟩
  | since {text : String} {number : Nat} (first : IsBound text number) :
      RangeText (text ++ "-") ⟨some number, none⟩
  | upTo {text : String} {number : Nat} (last : IsBound text number) :
      RangeText ("-" ++ text) ⟨none, some number⟩
  | between {start stop : String} {low high : Nat} (first : IsBound start low)
      (last : IsBound stop high) : RangeText (start ++ "-" ++ stop) ⟨some low, some high⟩

variable {text suffix : String} {number : Nat} {req : SpanReq}

theorem bound_iff : bound text = some (some number) ↔ IsBound text number := by
  unfold bound
  constructor
  · intro given
    split at given
    · cases given
    · rename_i nonempty
      split at given
      · rename_i digits
        obtain ⟨value, parsed, same⟩ := Option.map_eq_some_iff.mp given
        cases same
        unfold parseUsize at parsed
        dsimp only at parsed
        split at parsed
        · rename_i fits
          cases parsed
          exact ⟨by simpa using nonempty, List.all_eq_true.mp digits, rfl, fits⟩
        · cases parsed
      · cases given
  · intro given
    have parsed : parseUsize text = some number := by
      unfold parseUsize
      dsimp only
      rw [given.value, if_pos given.fits]
    rw [if_neg (by simpa using given.nonempty), if_pos (List.all_eq_true.mpr given.digits), parsed]
    rfl

theorem bound_none_iff : bound text = some none ↔ text = "" := by
  constructor
  · intro given
    unfold bound at given
    split at given
    · rename_i empty
      exact String.isEmpty_iff.mp empty
    · split at given
      · obtain ⟨value, -, same⟩ := Option.map_eq_some_iff.mp given
        cases same
      · cases given
  · intro empty
    rw [empty]
    rfl

theorem IsBound.absent (given : IsBound text number) {mark : Char} (other : mark.isDigit = false) :
    mark ∉ text.toList := by
  intro member
  rw [given.digits mark member] at other
  cases other

/-- The parts of a suffix with a hyphen, read on their own. -/
theorem parseRange_parts {start stop : String} (absent : '-' ∉ start.toList) :
    parseRange (start ++ "-" ++ stop) = some req ↔
      ¬ (start = "" ∧ stop = "") ∧ bound start = some req.start ∧ bound stop = some req.stop := by
  have split : splitOnce (start ++ "-" ++ stop) '-' = some (start, stop) := splitOnce_append absent
  unfold parseRange
  rw [split]
  dsimp only
  split
  · rename_i empty
    rw [Bool.and_eq_true, String.isEmpty_iff, String.isEmpty_iff] at empty
    simp [empty]
  · rename_i filled
    rw [Bool.and_eq_true, String.isEmpty_iff, String.isEmpty_iff] at filled
    rw [and_iff_right filled]
    cases req
    simp only [Option.bind_eq_bind, Option.bind_eq_some_iff, Option.some.injEq, SpanReq.mk.injEq]
    constructor
    · rintro ⟨first, one, last, two, rfl, rfl⟩
      exact ⟨one, two⟩
    · intro both
      exact ⟨_, both.1, _, both.2, rfl, rfl⟩

theorem parseRange_iff : parseRange suffix = some req ↔ RangeText suffix req := by
  have hyphen : '-'.isDigit = false := rfl
  constructor
  · intro parsed
    rcases splitOnce_cases suffix '-' with ⟨-, whole⟩ | ⟨start, stop, rfl, absent, -⟩
    · unfold parseRange at parsed
      rw [whole] at parsed
      obtain ⟨number, read, same⟩ := Option.bind_eq_some_iff.mp parsed
      obtain ⟨value, rfl, rfl⟩ := Option.map_eq_some_iff.mp same
      exact .single (bound_iff.mp read)
    · obtain ⟨filled, first, last⟩ := (parseRange_parts absent).mp parsed
      obtain ⟨low, high⟩ := req
      cases low with
      | none =>
          obtain rfl := bound_none_iff.mp first
          cases high with
          | none => exact absurd ⟨rfl, bound_none_iff.mp last⟩ filled
          | some high => exact .upTo (bound_iff.mp last)
      | some low =>
          cases high with
          | none =>
              obtain rfl := bound_none_iff.mp last
              rw [String.append_empty]
              exact .since (bound_iff.mp first)
          | some high => exact .between (bound_iff.mp first) (bound_iff.mp last)
  · intro range
    cases range with
    | single only =>
        have whole : splitOnce suffix '-' = none := by
          rcases splitOnce_cases suffix '-' with ⟨-, whole⟩ | ⟨start, stop, rfl, -, -⟩
          · exact whole
          · exact absurd (by simp) (only.absent hyphen)
        unfold parseRange
        rw [whole]
        dsimp only
        rw [bound_iff.mpr only]
        rfl
    | since first =>
        rename_i text number
        have parts := @parseRange_parts ⟨some number, none⟩ text "" (first.absent hyphen)
        rw [String.append_empty] at parts
        exact parts.mpr ⟨fun empty => first.nonempty empty.1, bound_iff.mpr first, rfl⟩
    | upTo last =>
        rename_i text number
        have parts := @parseRange_parts ⟨none, some number⟩ "" text (by simp)
        exact parts.mpr ⟨fun empty => last.nonempty empty.2, rfl, bound_iff.mpr last⟩
    | between first last =>
        exact (parseRange_parts (first.absent hyphen)).mpr
          ⟨fun empty => first.nonempty empty.1, bound_iff.mpr first, bound_iff.mpr last⟩

end Ranges

section References

variable {source suffix : String} {req : SpanReq}

theorem RangeText.chars (range : RangeText suffix req) : '#' ∉ suffix.toList := by
  have mark : '#'.isDigit = false := rfl
  cases range with
  | single only => exact only.absent mark
  | since first => simpa using first.absent mark
  | upTo last => simpa using last.absent mark
  | between first last => simpa using ⟨first.absent mark, last.absent mark⟩

theorem parseRef_of_range (nonempty : source ≠ "") (range : RangeText suffix req) :
    parseRef (source ++ "#" ++ suffix) = (source, some req) := by
  have split : rsplitOnce (source ++ "#" ++ suffix) '#' = some (source, suffix) :=
    rsplitOnce_append range.chars
  have filled : source.isEmpty = false := by simpa using nonempty
  unfold parseRef
  rw [split]
  dsimp only
  rw [filled, parseRange_iff.mpr range]

theorem parseRef_cases (input : String) : parseRef input = (input, none) ∨
    ∃ source suffix req, input = source ++ "#" ++ suffix ∧ '#' ∉ suffix.toList ∧ source ≠ "" ∧
      RangeText suffix req ∧ parseRef input = (source, some req) := by
  rcases rsplitOnce_cases input '#' with ⟨-, whole⟩ | ⟨source, suffix, rfl, absent, split⟩
  · left
    unfold parseRef
    rw [whole]
  · by_cases empty : source = ""
    · left
      unfold parseRef
      rw [split, empty]
      rfl
    · cases parsed : parseRange suffix with
      | none =>
          left
          unfold parseRef
          rw [split]
          dsimp only
          rw [parsed]
          cases source.isEmpty <;> rfl
      | some req =>
          have range := parseRange_iff.mp parsed
          exact .inr ⟨source, suffix, req, rfl, absent, empty, range,
            parseRef_of_range empty range⟩

end References

section RoundTrips

variable {source : String} {req : SpanReq} {span : Span} {number : Nat}

theorem isBound_toString (fits : number ≤ usizeMax) : IsBound (toString number) number := by
  have chars : (toString number).toList = Nat.toDigits 10 number := by
    rw [Nat.toString_eq_repr, Nat.toList_repr]
  refine ⟨?_, ?_, ?_, fits⟩
  · intro empty
    rw [empty] at chars
    exact Nat.toDigits_ne_nil chars.symm
  · intro char member
    rw [chars] at member
    exact Nat.isDigit_of_mem_toDigits (by omega) (by omega) member
  · rw [chars]
    exact Nat.ofDigitChars_ten_toDigits

/-- The bounds of a request are numbers of the code. -/
structure SpanReq.Fits (req : SpanReq) : Prop where
  start : ∀ number, req.start = some number → number ≤ usizeMax
  stop : ∀ number, req.stop = some number → number ≤ usizeMax

theorem display_range (fits : req.Fits) (bounded : req.start ≠ none ∨ req.stop ≠ none) :
    ∃ suffix, req.display = "#" ++ suffix ∧ RangeText suffix req := by
  obtain ⟨start, stop⟩ := req
  cases start with
  | none =>
      cases stop with
      | none => simp at bounded
      | some high =>
          exact ⟨"-" ++ toString high, rfl, .upTo (isBound_toString (fits.stop high rfl))⟩
  | some low =>
      have first := isBound_toString (fits.start low rfl)
      cases stop with
      | none =>
          refine ⟨toString low ++ "-", ?_, .since first⟩
          show "#" ++ toString low ++ "-" ++ "" = _
          rw [String.append_empty, String.append_assoc]
      | some high =>
          by_cases same : low = high
          · refine ⟨toString low, ?_, ?_⟩
            · unfold SpanReq.display
              exact if_pos same
            · rw [← same]
              exact .single first
          · refine ⟨toString low ++ "-" ++ toString high, ?_,
              .between first (isBound_toString (fits.stop high rfl))⟩
            unfold SpanReq.display
            refine (if_neg same).trans ?_
            show "#" ++ toString low ++ "-" ++ toString high = _
            rw [String.append_assoc, String.append_assoc, String.append_assoc]

theorem parseRef_display (nonempty : source ≠ "") (fits : req.Fits)
    (bounded : req.start ≠ none ∨ req.stop ≠ none) :
    parseRef (source ++ req.display) = (source, some req) := by
  obtain ⟨suffix, shown, range⟩ := display_range fits bounded
  rw [shown, ← String.append_assoc]
  exact parseRef_of_range nonempty range

/-- The request that the text of a span stands for. -/
def Span.request (span : Span) : SpanReq :=
  ⟨some (span.start + 1), some span.stop⟩

theorem formatSpan_range (nonempty : span.start < span.stop) (fits : span.stop ≤ usizeMax) :
    ∃ suffix, formatSpan span = "#" ++ suffix ∧ RangeText suffix span.request := by
  have first : IsBound (toString (span.start + 1)) (span.start + 1) :=
    isBound_toString (by omega)
  unfold formatSpan
  split
  · rename_i one
    have last : span.stop = span.start + 1 := by
      unfold Span.length at one
      omega
    refine ⟨_, rfl, ?_⟩
    unfold Span.request
    rw [last]
    exact .single first
  · refine ⟨toString (span.start + 1) ++ "-" ++ toString span.stop, ?_,
      .between first (isBound_toString fits)⟩
    rw [String.append_assoc, String.append_assoc, String.append_assoc]

theorem parseRef_formatSpan (filled : source ≠ "") (nonempty : span.start < span.stop)
    (fits : span.stop ≤ usizeMax) :
    parseRef (source ++ formatSpan span) = (source, some span.request) := by
  obtain ⟨suffix, shown, range⟩ := formatSpan_range nonempty fits
  rw [shown, ← String.append_assoc]
  exact parseRef_of_range filled range

theorem resolve_request {length : Nat} (nonempty : span.start < span.stop)
    (within : span.stop ≤ length) : span.request.resolve length = .ok span := by
  unfold SpanReq.resolve Span.request
  dsimp only [Option.getD_some]
  rw [if_neg (by omega), if_neg (by omega), if_neg (by omega), Nat.add_sub_cancel]

theorem resolve_within {length : Nat} (resolved : req.resolve length = .ok span) :
    span.start < span.stop ∧ span.stop ≤ length := by
  unfold SpanReq.resolve at resolved
  dsimp only at resolved
  split_ifs at resolved with zero inverted beyond
  cases resolved
  dsimp only
  omega

/-- References are split exactly at ranges, and both printers are read back. -/
theorem parseRef_reads :
    (∀ input, (∀ source req, parseRef input = (source, some req) ↔
      ∃ suffix, input = source ++ "#" ++ suffix ∧ '#' ∉ suffix.toList ∧ source ≠ "" ∧
        RangeText suffix req) ∧
      ((∀ source req, parseRef input ≠ (source, some req)) → parseRef input = (input, none))) ∧
    (∀ source req, source ≠ "" → SpanReq.Fits req → req.start ≠ none ∨ req.stop ≠ none →
      parseRef (source ++ req.display) = (source, some req)) ∧
    ∀ source span length, source ≠ "" → span.start < span.stop → span.stop ≤ length →
      length ≤ usizeMax → ∃ req, parseRef (source ++ formatSpan span) = (source, some req) ∧
        req.resolve length = .ok span := by
  refine ⟨fun input => ⟨?_, ?_⟩, fun source req => parseRef_display, ?_⟩
  · intro source req
    constructor
    · intro split
      rcases parseRef_cases input with
        whole | ⟨front, suffix, read, shape, absent, filled, range, again⟩
      · rw [whole] at split
        cases split
      · rw [again] at split
        cases split
        exact ⟨suffix, shape, absent, filled, range⟩
    · rintro ⟨suffix, rfl, -, filled, range⟩
      exact parseRef_of_range filled range
  · intro never
    rcases parseRef_cases input with whole | ⟨source, _, req, -, -, -, -, again⟩
    · exact whole
    · exact absurd again (never source req)
  · intro source span length filled nonempty within fits
    exact ⟨span.request, parseRef_formatSpan filled nonempty (within.trans fits),
      resolve_request nonempty within⟩

end RoundTrips

end AgentTranscript
