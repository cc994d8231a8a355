import AgentTranscript.Basic
import AgentTranscript.Library.Packing
import AgentTranscript.Views.Fragment

/-!
Reading a session as text. A text over the budget is refused with the ranges in which it
can be read.
-/

set_option autoImplicit false

namespace AgentTranscript

open Packing

section Definitions

/-- `txcript::text::to_text_fragment`. -/
class TextFragment where
  toTextFragment : Transcript → Span → Option String

def readBudget : Nat := 100000

structure Chunking where
  chunks : List Span
  lo : Nat
  acc : Nat
  deriving DecidableEq, Repr

/-- `+` on `usize`, as a release build computes it. -/
def usizeAdd (left right : Nat) : Nat :=
  (left + right) % (usizeMax + 1)

/-- One turn of the loop in `chunk_ranges`, for a size and its index. -/
def chunkStep (start budget : Nat) (state : Chunking) (item : Nat × Nat) : Chunking :=
  let state := if item.2 > state.lo && usizeAdd state.acc item.1 > budget then
      ⟨state.chunks ++ [⟨usizeAdd start state.lo, usizeAdd start item.2⟩], item.2, 0⟩
    else state
  { state with acc := usizeAdd state.acc item.1 }

def chunkRanges (sizes : List Nat) (start budget : Nat) : List Span :=
  let state := sizes.zipIdx.foldl (chunkStep start budget) ⟨[], 0, 0⟩
  if state.lo < sizes.length then
    state.chunks ++ [⟨usizeAdd start state.lo, usizeAdd start sizes.length⟩]
  else state.chunks

variable [TextFragment]

/-- The bytes of one message as text. -/
def messageSize (transcript : Transcript) (index : Nat) : Nat :=
  (TextFragment.toTextFragment transcript ⟨index, index + 1⟩).elim 0 String.utf8ByteSize

/-- The ranges in which a span is read. -/
def readChunks (transcript : Transcript) (span : Span) : List Span :=
  chunkRanges ((List.range' span.start span.length).map (messageSize transcript)) span.start
    readBudget

/-- The references that a refusal shows. -/
def suggestions (src : String) (transcript : Transcript) (span : Span) : List String :=
  ((readChunks transcript span).take 12).map fun range => src ++ formatSpan range

def overBudget (src : String) (transcript : Transcript) (span : Span) (rendered : Nat) : String :=
  let shown := ", ".intercalate
    ((suggestions src transcript span).map fun reference => "`" ++ reference ++ "`")
  let more := if (readChunks transcript span).length > 12 then ", …" else ""
  s!"session `{src}` renders to {rendered} bytes, over the {readBudget}-byte read budget — " ++
    s!"read it in ranges: {shown}{more}"

def render (src : String) (transcript : Transcript) (spanReq : Option SpanReq) :
    Except String String := do
  let total := transcript.body.length
  let span ← match spanReq with
    | some req => req.resolve total
    | none => .ok ⟨0, total⟩
  match TextFragment.toTextFragment transcript span with
  | none => .error s!"range is out of bounds — the session has {total} messages"
  | some rendered =>
      if rendered.utf8ByteSize > readBudget && span.length > 1 then
        .error (overBudget src transcript span rendered.utf8ByteSize)
      else .ok rendered

end Definitions

section Chunks

variable {start budget : Nat} {sizes : List Nat}

/-- Consecutive spans for groups of messages. -/
def spansOf : Nat → List (List Nat) → List Span
  | _, [] => []
  | start, group :: groups => ⟨start, start + group.length⟩ :: spansOf (start + group.length) groups

theorem spansOf_append (start : Nat) (groups : List (List Nat)) (last : List Nat) :
    spansOf start (groups ++ [last]) = spansOf start groups ++
      [⟨start + groups.flatten.length, start + (groups.flatten.length + last.length)⟩] := by
  induction groups generalizing start with
  | nil => simp [spansOf]
  | cons group groups ih =>
      rw [List.cons_append, spansOf, ih, spansOf, List.flatten_cons, List.length_append]
      simp only [List.cons_append, Nat.add_assoc]

theorem usizeAdd_fits {left right : Nat} (fits : left + right ≤ usizeMax) :
    usizeAdd left right = left + right :=
  Nat.mod_eq_of_lt (Nat.lt_succ_of_le fits)

/-- Whether the sum that the loop compares with the budget exceeds it. -/
def tooLarge (budget : Nat) (fill : Fill Nat) (size : Nat) : Bool :=
  budget < usizeAdd (total id fill.current) size

/-- The groups whose ranges the loop returns. -/
def chunkFill (budget : Nat) (sizes : List Nat) : Fill Nat :=
  sizes.foldl (fun fill size => fill.place (tooLarge budget fill size) size) ⟨[], []⟩

theorem chunkFill_dividing (budget : Nat) (sizes : List Nat) :
    Dividing sizes (chunkFill budget sizes) :=
  Loop.foldl_invariant Dividing .start fun _ size _ fill _ dividing =>
    dividing.place (tooLarge budget fill size) size

/-- The loop keeps the ranges of the closed groups, and the start and the size of the group
that is being filled. -/
structure Represents (start : Nat) (fill : Fill Nat) (state : Chunking) : Prop where
  chunks : state.chunks = spansOf start fill.closed
  lo : state.lo = fill.closed.flatten.length
  acc : state.acc = total id fill.current % (usizeMax + 1)

theorem chunkStep_represents {fill : Fill Nat} {state : Chunking} {size index : Nat}
    (represents : Represents start fill state)
    (position : index = (fill.closed.flatten ++ fill.current).length)
    (fits : start + index ≤ usizeMax) :
    Represents start (fill.place (tooLarge budget fill size) size)
      (chunkStep start budget state (size, index)) := by
  obtain ⟨chunks, lo, acc⟩ := represents
  obtain ⟨closed, current⟩ := fill
  dsimp only at chunks lo acc position
  rw [List.length_append, ← lo] at position
  have sum : usizeAdd state.acc size = usizeAdd (total id current) size := by
    rw [acc, usizeAdd, usizeAdd, Nat.mod_add_mod]
  have condition : (decide (index > state.lo) && decide (usizeAdd state.acc size > budget)) =
      (!current.isEmpty && tooLarge budget ⟨closed, current⟩ size) := by
    rw [sum, position]
    cases current <;> simp [tooLarge]
  unfold chunkStep Fill.place
  dsimp only
  rw [condition]
  split
  · refine ⟨?_, ?_, by simp [total, usizeAdd]⟩
    · dsimp only
      rw [spansOf_append, chunks, ← lo, usizeAdd_fits fits, usizeAdd_fits (by omega), position]
    · dsimp only
      rw [List.flatten_append, List.length_append, ← lo, position]
      simp
  · refine ⟨chunks, lo, ?_⟩
    dsimp only
    rw [total_append, total_singleton, sum]
    rfl

/-- What the loop holds after the sizes. -/
theorem chunks_represent (budget : Nat) (positions : start + sizes.length ≤ usizeMax) :
    Represents start (chunkFill budget sizes)
      (sizes.zipIdx.foldl (chunkStep start budget) ⟨[], 0, 0⟩) := by
  have loop : Represents start (chunkFill budget (sizes.zipIdx.map Prod.fst))
      (sizes.zipIdx.foldl (chunkStep start budget) ⟨[], 0, 0⟩) := by
    refine Loop.foldl_invariant (fun seen state =>
      Represents start (chunkFill budget (seen.map Prod.fst)) state) ?_ ?_
    · exact ⟨rfl, rfl, rfl⟩
    · intro seen item rest state split represents
      have position : item.2 = seen.length := by
        have found : sizes.zipIdx[seen.length]? = some item := by simp [split]
        simp only [List.getElem?_zipIdx, Option.map_eq_some_iff] at found
        obtain ⟨value, -, same⟩ := found
        rw [← same]
        exact Nat.zero_add _
      have counted : sizes.length = seen.length + (rest.length + 1) := by
        have lengths := congrArg List.length split
        simpa using lengths
      have more : chunkFill budget ((seen ++ [item]).map Prod.fst) =
          (chunkFill budget (seen.map Prod.fst)).place
            (tooLarge budget (chunkFill budget (seen.map Prod.fst)) item.1) item.1 := by
        simp [chunkFill]
      rw [more]
      refine chunkStep_represents represents ?_ ?_
      · rw [position, (chunkFill_dividing budget _).whole, List.length_map]
      · omega
  rwa [List.zipIdx_map_fst] at loop

/-- Where the positions fit, the ranges are consecutive groups of the sizes. -/
theorem chunkRanges_spans (positions : start + sizes.length ≤ usizeMax) :
    chunkRanges sizes start budget = spansOf start (chunkFill budget sizes).groups := by
  obtain ⟨chunks, lo, -⟩ := chunks_represent budget positions
  have length := congrArg List.length (chunkFill_dividing budget sizes).whole
  rw [List.length_append] at length
  unfold chunkRanges Fill.groups
  dsimp only
  rw [chunks, lo]
  split
  · rename_i unfinished
    have occupied : (chunkFill budget sizes).current.isEmpty = false := by
      rw [List.isEmpty_eq_false_iff, ← List.length_pos_iff]
      omega
    rw [occupied, usizeAdd_fits positions, usizeAdd_fits (by omega), ← length]
    exact (spansOf_append _ _ _).symm
  · rename_i finished
    have empty : (chunkFill budget sizes).current.isEmpty = true := by
      rw [List.isEmpty_iff, ← List.length_eq_zero_iff]
      omega
    rw [empty]
    rfl

/-- The sum of a range and the size after it is a `usize`. -/
def SumsFit (budget : Nat) (sizes : List Nat) : Prop :=
  ∀ group size, group ++ [size] <:+: sizes → Packing.Fits id budget group →
    total id group + size ≤ usizeMax

/-- Where the sums fit, the groups are those of a greedy packing. -/
theorem chunkFill_fits (fits : SumsFit budget sizes) :
    chunkFill budget sizes = fillAll id budget sizes := by
  refine Loop.foldl_invariant (fun seen fill => fill = fillAll id budget seen) rfl ?_
  intro seen size rest fill split same
  have whole : fill.closed.flatten ++ fill.current = seen :=
    same ▸ (fillAll_packed id budget seen).dividing.whole
  have within : Packing.Fits id budget fill.current := by
    cases current : fill.current with
    | nil => exact .inr (Nat.zero_le budget)
    | cons first others =>
        refine (fillAll_packed id budget seen).packed.fits _ ?_
        simp [Fill.groups, ← same, current]
  have room : total id fill.current + size ≤ usizeMax := by
    refine fits _ _ ⟨fill.closed.flatten, rest, ?_⟩ within
    rw [split, ← whole]
    simp
  have decided : tooLarge budget fill size =
      decide (budget < total id fill.current + id size) := by
    rw [tooLarge, usizeAdd_fits room]
    rfl
  rw [decided, fillAll, List.foldl_append, ← fillAll, ← same]
  rfl

/-- Sums fit where the sizes and the budget are those of texts in memory. -/
theorem SumsFit.of_small (small : ∀ size ∈ sizes, size < 2 ^ 63) (moderate : budget < 2 ^ 63) :
    SumsFit budget sizes := by
  intro group size among within
  have last : size < 2 ^ 63 := small size (among.subset (by simp))
  have sum : total id group < 2 ^ 63 := by
    rcases within with one | room
    · obtain ⟨first, rfl⟩ := List.length_eq_one_iff.mp one
      rw [total_singleton]
      exact small first (among.subset (by simp))
    · omega
  unfold usizeMax
  omega

/-- Where the positions fit, the ranges divide the sizes, and where all sums fit too, they are
those of a greedy packing. -/
theorem chunkRanges_packed (sizes : List Nat) (start budget : Nat)
    (positions : start + sizes.length ≤ usizeMax) : ∃ groups,
      chunkRanges sizes start budget = spansOf start groups ∧ Divided sizes groups ∧
      (SumsFit budget sizes → Packed id budget sizes groups) := by
  refine ⟨_, chunkRanges_spans positions, (chunkFill_dividing budget sizes).divided, ?_⟩
  intro fits
  rw [chunkFill_fits fits]
  exact (fillAll_packed id budget sizes).packed

/-- A sum that wraps around passes for one within the budget. -/
theorem chunkRanges_wraps : chunkRanges [usizeMax, 1] 0 10 = [⟨0, 2⟩] ∧
    ¬ ∃ groups, chunkRanges [usizeMax, 1] 0 10 = spansOf 0 groups ∧
      Packed id 10 [usizeMax, 1] groups := by
  have ranges : chunkRanges [usizeMax, 1] 0 10 = [⟨0, 2⟩] := by decide
  refine ⟨ranges, ?_⟩
  rintro ⟨groups, shape, packed⟩
  rw [ranges] at shape
  cases groups with
  | nil => cases shape
  | cons group groups =>
      have fits := packed.fits group List.mem_cons_self
      cases groups with
      | nil =>
          obtain rfl : group = [usizeMax, 1] := by simpa using packed.covers
          revert fits
          unfold Packing.Fits
          decide
      | cons other groups =>
          have lengths := congrArg List.length shape
          simp [spansOf] at lengths

/-- A range of a list of numbers is the span of its group. -/
theorem mem_spansOf {groups : List (List Nat)} {measure : Nat → Nat} {count : Nat} {range : Span}
    (covers : groups.flatten = (List.range' start count).map measure)
    (member : range ∈ spansOf start groups) :
    start ≤ range.start ∧ range.stop ≤ start + count ∧ ∃ group ∈ groups,
      range.length = group.length ∧ range.start ≤ range.stop ∧
        group = (List.range' range.start range.length).map measure := by
  induction groups generalizing start count with
  | nil => cases member
  | cons group groups ih =>
      have sizes := congrArg List.length covers
      rw [List.flatten_cons, List.length_append, List.length_map, List.length_range'] at sizes
      have split : List.range' start count = List.range' start group.length ++
          List.range' (start + group.length) groups.flatten.length := by
        rw [List.range'_append_1, sizes]
      rw [List.flatten_cons, split, List.map_append] at covers
      obtain ⟨first, others⟩ := List.append_inj covers (by simp)
      rcases List.mem_cons.mp member with rfl | later
      · have length : (⟨start, start + group.length⟩ : Span).length = group.length :=
          Nat.add_sub_cancel_left _ _
        refine ⟨le_refl _, ?_, group, List.mem_cons_self, length, Nat.le_add_right _ _, ?_⟩
        · dsimp only
          omega
        · rw [length]
          exact first
      · obtain ⟨lower, upper, other, among, rest⟩ := ih others later
        refine ⟨by omega, by omega, other, List.mem_cons_of_mem group among, rest⟩

end Chunks

section Accepted

variable [TextFragment] {transcript : Transcript}

/-- What is relied on: messages in range are rendered, and together they take no more bytes than
each on its own. Texts and lists in memory have less than `isize::MAX` bytes and elements. -/
structure TextFragment.Bounded (transcript : Transcript) : Prop where
  total : ∀ span : Span, span.start < span.stop → span.stop ≤ transcript.body.length →
    ∃ rendered, TextFragment.toTextFragment transcript span = some rendered
  size : ∀ (span : Span) (rendered : String), span.start < span.stop →
    span.stop ≤ transcript.body.length →
    TextFragment.toTextFragment transcript span = some rendered → rendered.utf8ByteSize ≤
      ((List.range' span.start span.length).map (messageSize transcript)).sum
  bytes : ∀ index < transcript.body.length, messageSize transcript index < 2 ^ 63
  messages : transcript.body.length < 2 ^ 63

theorem TextFragment.Bounded.fits (bounded : TextFragment.Bounded transcript) :
    transcript.body.length ≤ usizeMax :=
  bounded.messages.le.trans (by decide)

theorem readSizes_length {span : Span} (ordered : span.start ≤ span.stop)
    (within : span.stop ≤ transcript.body.length) (fits : transcript.body.length ≤ usizeMax) :
    span.start + ((List.range' span.start span.length).map (messageSize transcript)).length ≤
      usizeMax := by
  rw [List.length_map, List.length_range', Span.length]
  omega

/-- Ranges that are suggested have a message and are in range. -/
theorem mem_readChunks {span range : Span} (ordered : span.start ≤ span.stop)
    (within : span.stop ≤ transcript.body.length) (fits : transcript.body.length ≤ usizeMax)
    (member : range ∈ readChunks transcript span) :
    range.start < range.stop ∧ range.stop ≤ transcript.body.length := by
  obtain ⟨groups, shape, divided, -⟩ := chunkRanges_packed _ _ readBudget
    (readSizes_length ordered within fits)
  rw [readChunks, shape] at member
  obtain ⟨-, upper, group, among, length, -, -⟩ := mem_spansOf divided.covers member
  have occupied := List.length_pos_of_ne_nil (divided.nonempty group among)
  unfold Span.length at length upper
  omega

/-- Ranges that are suggested have one message or are within the budget. -/
theorem readChunks_fit (bounded : TextFragment.Bounded transcript) {span range : Span}
    (ordered : span.start ≤ span.stop) (within : span.stop ≤ transcript.body.length)
    (member : range ∈ readChunks transcript span) : range.length = 1 ∨
      ((List.range' range.start range.length).map (messageSize transcript)).sum ≤ readBudget := by
  have small : ∀ size ∈ (List.range' span.start span.length).map (messageSize transcript),
      size < 2 ^ 63 := by
    intro size among
    obtain ⟨index, position, rfl⟩ := List.mem_map.mp among
    have bounds := List.mem_range'_1.mp position
    unfold Span.length at bounds
    exact bounded.bytes index (by omega)
  obtain ⟨groups, shape, -, packing⟩ := chunkRanges_packed _ _ readBudget
    (readSizes_length ordered within bounded.fits)
  have packed := packing (.of_small small (by decide))
  rw [readChunks, shape] at member
  obtain ⟨-, -, group, among, length, -, content⟩ := mem_spansOf packed.covers member
  have fits := packed.fits group among
  have sum : total id group = group.sum := by simp [total]
  unfold Packing.Fits at fits
  rw [sum, content] at fits
  simpa using fits

theorem readChunks_accepted (bounded : TextFragment.Bounded transcript) {span range : Span}
    (ordered : span.start ≤ span.stop) (within : span.stop ≤ transcript.body.length)
    (member : range ∈ readChunks transcript span) (src : String) :
    ∃ text, render src transcript (some range.request) = .ok text := by
  obtain ⟨nonempty, inside⟩ := mem_readChunks ordered within bounded.fits member
  have fits := readChunks_fit bounded ordered within member
  obtain ⟨rendered, found⟩ := bounded.total range nonempty inside
  have small : ¬ (rendered.utf8ByteSize > readBudget ∧ range.length > 1) := by
    rintro ⟨large, several⟩
    have size := bounded.size range rendered nonempty inside found
    omega
  refine ⟨rendered, ?_⟩
  unfold render
  dsimp only
  rw [resolve_request nonempty inside]
  simp only [Loop.ok_bind, found]
  rw [if_neg (by simpa using small)]

/-- The ranges of a text over the budget cover it without gaps, are as long as the budget
allows, and are accepted when they are asked for. -/
theorem chunkRanges_greedy :
    (∀ sizes start budget, start + sizes.length ≤ usizeMax → ∃ groups,
      chunkRanges sizes start budget = spansOf start groups ∧ Divided sizes groups ∧
      (SumsFit budget sizes → Packed id budget sizes groups)) ∧
    ∀ transcript, TextFragment.Bounded transcript → ∀ span : Span, span.start ≤ span.stop →
      span.stop ≤ transcript.body.length → ∀ range ∈ readChunks transcript span, ∀ src,
        (src ≠ "" → parseRef (src ++ formatSpan range) = (src, some range.request)) ∧
        range.request.resolve transcript.body.length = .ok range ∧
        ∃ text, render src transcript (some range.request) = .ok text := by
  refine ⟨chunkRanges_packed, ?_⟩
  intro transcript bounded span ordered within range member src
  obtain ⟨nonempty, inside⟩ := mem_readChunks ordered within bounded.fits member
  exact ⟨fun filled => parseRef_formatSpan filled nonempty (inside.trans bounded.fits),
    resolve_request nonempty inside, readChunks_accepted bounded ordered within member src⟩

end Accepted

section Run

/-- Messages of sixty thousand bytes each. -/
@[reducible] def TextFragment.long : TextFragment where
  toTextFragment transcript span :=
    if span.stop ≤ transcript.body.length then
      some (String.ofList (List.replicate (60000 * span.length) 'a'))
    else none

def twoMessages : Transcript where
  metadata := ⟨"s", 0, none, none, none, none, ""⟩
  body := [⟨0, "one"⟩, ⟨1, "two"⟩]

theorem utf8ByteSize_replicate (count : Nat) :
    (String.ofList (List.replicate count 'a')).utf8ByteSize = count := by
  rw [String.utf8ByteSize_ofList]
  induction count with
  | zero => rfl
  | succ count ih => rw [List.replicate_succ, String.utf8Len_cons, ih]; rfl

theorem messageSize_long {transcript : Transcript} {index : Nat}
    (inside : index < transcript.body.length) :
    @messageSize TextFragment.long transcript index = 60000 := by
  have found : TextFragment.long.toTextFragment transcript ⟨index, index + 1⟩ =
      some (String.ofList (List.replicate (60000 * 1) 'a')) := by
    have one : (⟨index, index + 1⟩ : Span).length = 1 := Nat.add_sub_cancel_left _ _
    refine (if_pos inside).trans ?_
    rw [one]
  unfold messageSize
  rw [found, Option.elim_some, utf8ByteSize_replicate]

theorem long_bounded {transcript : Transcript} (messages : transcript.body.length < 2 ^ 63) :
    @TextFragment.Bounded TextFragment.long transcript := by
  refine @TextFragment.Bounded.mk TextFragment.long transcript ?_ ?_ ?_ messages
  · intro span _ within
    exact ⟨_, if_pos within⟩
  · intro span rendered ordered within found
    have shape := (if_pos within).symm.trans found
    cases shape
    rw [utf8ByteSize_replicate]
    have each : (List.range' span.start span.length).map (@messageSize TextFragment.long transcript) =
        (List.range' span.start span.length).map fun _ => 60000 := by
      apply List.map_congr_left
      intro index member
      apply messageSize_long
      have bounds := List.mem_range'_1.mp member
      unfold Span.length at bounds
      omega
    rw [each, List.map_const', List.length_range', List.sum_replicate, smul_eq_mul, Nat.mul_comm]
  · intro index inside
    rw [messageSize_long inside]
    decide

theorem twoMessages_chunks :
    @readChunks TextFragment.long twoMessages ⟨0, 2⟩ = [⟨0, 1⟩, ⟨1, 2⟩] := by
  have sizes : (List.range' 0 2).map (@messageSize TextFragment.long twoMessages) =
      [60000, 60000] := by
    show [_, _] = _
    rw [messageSize_long (by decide), messageSize_long (by decide)]
  show chunkRanges ((List.range' 0 2).map (@messageSize TextFragment.long twoMessages)) 0
    readBudget = _
  rw [sizes]
  decide

/-- Two messages that are too long together are read one by one. -/
theorem twoMessages_accepted :
    (∃ groups, chunkRanges [60000, 60000] 0 readBudget = spansOf 0 groups ∧
      Packed id readBudget [60000, 60000] groups) ∧
    ∃ text, @render TextFragment.long "s" twoMessages (some ⟨some 2, some 2⟩) = .ok text := by
  obtain ⟨packs, accepted⟩ := @chunkRanges_greedy TextFragment.long
  constructor
  · obtain ⟨groups, shape, -, packed⟩ := packs [60000, 60000] 0 readBudget (by decide)
    exact ⟨groups, shape, packed (.of_small (by decide) (by decide))⟩
  · have second := accepted twoMessages (long_bounded (by decide)) ⟨0, 2⟩ (by decide) (by decide)
      ⟨1, 2⟩ (by rw [twoMessages_chunks]; simp) "s"
    exact second.2.2

end Run

end AgentTranscript
