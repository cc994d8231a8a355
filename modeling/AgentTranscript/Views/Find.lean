import AgentTranscript.Views.Render
import AgentTranscript.Views.Select

/-!
Finding the session that a query selects, and whether a suggested reference comes back
to it.
-/

set_option autoImplicit false

namespace AgentTranscript

section Definitions

/-- The only view that was found, if any. -/
def only (found : List MergedView) (ambiguous : String) : Except Error (Option MergedView) :=
  match found with
  | [] => .ok none
  | [view] => .ok (some view)
  | _ => .error (.msg ambiguous)

def exactMatches (merged : List MergedView) (src : String) : List MergedView :=
  merged.filter fun session => session.sessionId = src

def prefixMatches (merged : List MergedView) (src : String) : List MergedView :=
  merged.filter fun session => startsWith session.sessionId src && !src.isEmpty

def titleMatches (merged : List MergedView) (src : String) : List MergedView :=
  merged.filter fun session => session.info.title = some src

def uniqueMatch (merged : List MergedView) (src : String) : Except Error (Option MergedView) := do
  match ← only (exactMatches merged src) s!"session id `{src}` is ambiguous" with
  | some view => .ok (some view)
  | none =>
      match ← only (prefixMatches merged src) s!"session id prefix `{src}` is ambiguous" with
      | some view => .ok (some view)
      | none => only (titleMatches merged src) s!"title `{src}` is ambiguous"

/-- The view, the part of the query that matched, and the range. -/
def findSession (merged : List MergedView) (query : String) :
    Except Error (MergedView × String × Option SpanReq) := do
  match ← uniqueMatch merged query with
  | some found => .ok (found, query, none)
  | none =>
      let (src, range) := parseRef query
      match ← uniqueMatch merged src with
      | some found => .ok (found, src, range)
      | none => .error (.msg s!"no session matches `{src}`")

/-- What `read_session` calls the session in a refusal. -/
def readLabel (found : MergedView × String × Option SpanReq) : String :=
  if found.2.2.isSome then found.2.1 else found.1.sessionId

/-- The span that `render` reads. -/
def readSpan (range : Option SpanReq) (total : Nat) : Except String Span :=
  match range with
  | some req => req.resolve total
  | none => .ok ⟨0, total⟩

end Definitions

section Match

variable {merged : List MergedView} {src : String} {view : MergedView}

/-- Ids and titles without a number sign. -/
structure Unmarked (merged : List MergedView) : Prop where
  ids : ∀ view ∈ merged, '#' ∉ view.sessionId.toList
  titles : ∀ view ∈ merged, ∀ title, view.info.title = some title → '#' ∉ title.toList

/-- No id of the list is the query or begins with it. -/
def Untaken (merged : List MergedView) (query : String) : Prop :=
  exactMatches merged query = [] ∧ prefixMatches merged query = []

theorem only_some_iff {found : List MergedView} {ambiguous : String} :
    only found ambiguous = .ok (some view) ↔ found = [view] := by
  fun_cases only found ambiguous with
  | case1 => simp
  | case2 other => simp
  | case3 found several none =>
      simp only [reduceCtorEq, false_iff]
      exact none view

theorem only_none_iff {found : List MergedView} {ambiguous : String} :
    only found ambiguous = .ok none ↔ found = [] := by
  fun_cases only found ambiguous with
  | case1 => simp
  | case2 other => simp
  | case3 found several none =>
      simp only [reduceCtorEq, false_iff]
      exact several

/-- A lookup answers by its first stage, or by the rest where that finds nothing. -/
theorem stage_ok_iff {first rest : Except Error (Option MergedView)} {answer : Option MergedView} :
    (do match ← first with
        | some view => .ok (some view)
        | none => rest) = .ok answer ↔
      (∃ view, first = .ok (some view) ∧ answer = some view) ∨
        first = .ok none ∧ rest = .ok answer := by
  cases first with
  | error error => simp
  | ok found =>
      cases found with
      | none => simp
      | some other => simp [eq_comm]

theorem uniqueMatch_some_iff : uniqueMatch merged src = .ok (some view) ↔
    exactMatches merged src = [view] ∨
      exactMatches merged src = [] ∧ prefixMatches merged src = [view] ∨
      Untaken merged src ∧ titleMatches merged src = [view] := by
  unfold uniqueMatch Untaken
  rw [stage_ok_iff, stage_ok_iff]
  simp only [only_some_iff, only_none_iff, Option.some.injEq, exists_eq_right', and_or_left,
    and_assoc]

theorem uniqueMatch_none_iff : uniqueMatch merged src = .ok none ↔
    Untaken merged src ∧ titleMatches merged src = [] := by
  unfold uniqueMatch Untaken
  rw [stage_ok_iff, stage_ok_iff]
  simp only [only_none_iff, reduceCtorEq, and_false, exists_false, false_or, and_assoc]

end Match

section Reference

variable {merged : List MergedView} {query label suffix : String} {view : MergedView}
  {req : SpanReq}

theorem Unmarked.reference (unmarked : Unmarked merged) (src suffix : String) :
    uniqueMatch merged (src ++ "#" ++ suffix) = .ok none := by
  have marked : '#' ∈ (src ++ "#" ++ suffix).toList := by simp
  refine uniqueMatch_none_iff.mpr ⟨⟨?_, ?_⟩, ?_⟩
  · rw [exactMatches, List.filter_eq_nil_iff]
    intro session member same
    exact unmarked.ids session member (of_decide_eq_true same ▸ marked)
  · rw [prefixMatches, List.filter_eq_nil_iff]
    intro session member begins
    rw [Bool.and_eq_true] at begins
    obtain ⟨rest, shape⟩ := startsWith_iff.mp begins.1
    refine unmarked.ids session member ?_
    rw [shape, String.toList_append]
    exact List.mem_append_left _ marked
  · rw [titleMatches, List.filter_eq_nil_iff]
    intro session member same
    exact unmarked.titles session member _ (of_decide_eq_true same) marked

/-- A reference finds what its source finds. -/
theorem findSession_reference (unmarked : Unmarked merged) (nonempty : label ≠ "")
    (range : RangeText suffix req) :
    findSession merged (label ++ "#" ++ suffix) = (do
      match ← uniqueMatch merged label with
      | some found => .ok (found, label, some req)
      | none => .error (.msg s!"no session matches `{label}`")) := by
  unfold findSession
  rw [unmarked.reference, parseRef_of_range nonempty range]
  rfl

theorem parseRef_sourceless (absent : '#' ∉ suffix.toList) :
    parseRef ("" ++ "#" ++ suffix) = ("" ++ "#" ++ suffix, none) := by
  have split : rsplitOnce ("" ++ "#" ++ suffix) '#' = some ("", suffix) :=
    rsplitOnce_append absent
  unfold parseRef
  rw [split]
  rfl

/-- Without a source a reference is taken as a whole, and finds nothing. -/
theorem findSession_sourceless (unmarked : Unmarked merged) (absent : '#' ∉ suffix.toList)
    (answer : MergedView × String × Option SpanReq) :
    findSession merged ("" ++ "#" ++ suffix) ≠ .ok answer := by
  unfold findSession
  rw [unmarked.reference, parseRef_sourceless absent]
  dsimp only [Loop.ok_bind]
  rw [unmarked.reference]
  intro wrong
  cases wrong

/-- The reference selects the session, with a range that resolves to the chunk. -/
def Returns (merged : List MergedView) (reference : String) (view : MergedView) (total : Nat)
    (chunk : Span) : Prop :=
  ∃ again label req, findSession merged reference = .ok (again, label, some req) ∧
    again.harness = view.harness ∧ again.sessionId = view.sessionId ∧
    req.resolve total = .ok chunk

theorem returns_iff (unmarked : Unmarked merged) {chunk : Span} {total : Nat}
    (nonempty : chunk.start < chunk.stop) (within : chunk.stop ≤ total) (fits : total ≤ usizeMax) :
    Returns merged (label ++ formatSpan chunk) view total chunk ↔
      label ≠ "" ∧ ∃ again, uniqueMatch merged label = .ok (some again) ∧
        again.harness = view.harness ∧ again.sessionId = view.sessionId := by
  obtain ⟨suffix, shown, range⟩ := formatSpan_range nonempty (within.trans fits)
  rw [shown, ← String.append_assoc]
  by_cases empty : label = ""
  · simp only [empty, ne_eq, not_true_eq_false, false_and, iff_false]
    rintro ⟨again, source, req, found, -⟩
    exact findSession_sourceless unmarked range.chars _ found
  · rw [and_iff_right empty]
    unfold Returns
    rw [findSession_reference unmarked empty range]
    cases found : uniqueMatch merged label with
    | error error => simp
    | ok answer =>
        cases answer with
        | none => simp
        | some other =>
            simp [resolve_request nonempty within]

end Reference

section Suggested

variable {merged : List MergedView} {query matched : String} {view : MergedView}
  {range : Option SpanReq}

/-- A query that is no session's empty id and that, where it selects by title, selects a
session whose id is its own. -/
structure Addressed (merged : List MergedView) (query : String) : Prop where
  named : query = "" → ∀ view ∈ merged, view.sessionId ≠ ""
  titled : Untaken merged query → ∀ view ∈ merged, view.info.title = some query →
    view.sessionId ≠ "" ∧ exactMatches merged view.sessionId = [view]

theorem mem_exactMatches {src : String} :
    view ∈ exactMatches merged src ↔ view ∈ merged ∧ view.sessionId = src := by
  simp [exactMatches]

theorem mem_prefixMatches {src : String} : view ∈ prefixMatches merged src ↔
    view ∈ merged ∧ startsWith view.sessionId src = true ∧ src ≠ "" := by
  simp [prefixMatches]

theorem mem_titleMatches {src : String} :
    view ∈ titleMatches merged src ↔ view ∈ merged ∧ view.info.title = some src := by
  simp [titleMatches]

theorem mem_of_uniqueMatch {src : String} (found : uniqueMatch merged src = .ok (some view)) :
    view ∈ merged := by
  rcases uniqueMatch_some_iff.mp found with same | ⟨-, begins⟩ | ⟨-, titles⟩
  · exact (mem_exactMatches.mp (same ▸ List.mem_singleton_self view)).1
  · exact (mem_prefixMatches.mp (begins ▸ List.mem_singleton_self view)).1
  · exact (mem_titleMatches.mp (titles ▸ List.mem_singleton_self view)).1

/-- The label of a session that was found without a range leads back to it. -/
theorem addressed_iff (found : uniqueMatch merged query = .ok (some view)) :
    (view.sessionId ≠ "" ∧ exactMatches merged view.sessionId = [view]) ↔
      Addressed merged query := by
  rcases uniqueMatch_some_iff.mp found with same_ | ⟨-, begins⟩ | ⟨untaken, titles⟩
  · obtain ⟨member, same⟩ := mem_exactMatches.mp (same_ ▸ List.mem_singleton_self view)
    rw [same, and_iff_left same_]
    constructor
    · intro filled
      exact ⟨fun empty => absurd empty filled,
        fun untaken => absurd (same_.symm.trans untaken.1) (by simp)⟩
    · intro addressed empty
      exact addressed.named empty view member (same.trans empty)
  · obtain ⟨member, starts, filled⟩ :=
      mem_prefixMatches.mp (begins ▸ List.mem_singleton_self view)
    have named : view.sessionId ≠ "" := by
      intro empty
      obtain ⟨rest, shape⟩ := startsWith_iff.mp starts
      rw [empty] at shape
      exact filled (String.append_eq_empty_iff.mp shape.symm).1
    have own : exactMatches merged view.sessionId = [view] := by
      have among : (exactMatches merged view.sessionId).Sublist [view] := by
        rw [← begins]
        refine List.monotone_filter_right _ ?_
        intro other same
        rw [of_decide_eq_true same, starts]
        simpa using filled
      rcases List.sublist_singleton.mp among with none | one
      · exact absurd (none ▸ mem_exactMatches.mpr ⟨member, rfl⟩) List.not_mem_nil
      · exact one
    exact ⟨fun _ => ⟨fun empty => absurd empty filled,
      fun untaken => absurd (begins.symm.trans untaken.2) (by simp)⟩, fun _ => ⟨named, own⟩⟩
  · obtain ⟨member, titled⟩ := mem_titleMatches.mp (titles ▸ List.mem_singleton_self view)
    constructor
    · intro own
      refine ⟨?_, ?_⟩
      · intro empty other among same
        have taken : other ∈ exactMatches merged query :=
          mem_exactMatches.mpr ⟨among, same.trans empty.symm⟩
        rw [untaken.1] at taken
        cases taken
      · intro _ other among also
        have listed : other ∈ titleMatches merged query := mem_titleMatches.mpr ⟨among, also⟩
        rw [titles, List.mem_singleton] at listed
        rwa [listed]
    · intro addressed
      exact addressed.titled untaken view member titled

/-- A session is found by the whole query, or by what comes before a range. -/
theorem findSession_cases (found : findSession merged query = .ok (view, matched, range)) :
    (uniqueMatch merged query = .ok (some view) ∧ matched = query ∧ range = none) ∨
      ∃ suffix req, query = matched ++ "#" ++ suffix ∧ matched ≠ "" ∧ range = some req ∧
        uniqueMatch merged matched = .ok (some view) := by
  unfold findSession at found
  obtain ⟨answer, first, rest⟩ := Loop.bind_ok found
  cases answer with
  | some other =>
      cases rest
      exact .inl ⟨first, rfl, rfl⟩
  | none =>
      right
      rcases parseRef_cases query with whole | ⟨source, suffix, req, shape, -, filled, -, split⟩
      · rw [whole] at rest
        dsimp only at rest
        rw [first] at rest
        cases rest
      · rw [split] at rest
        obtain ⟨again, second, last⟩ := Loop.bind_ok rest
        cases again with
        | none => cases last
        | some other =>
            cases last
            exact ⟨suffix, req, shape, filled, rfl, second⟩

theorem suggestion_returns_iff [TextFragment] (unmarked : Unmarked merged)
    (found : findSession merged query = .ok (view, matched, range)) {transcript : Transcript}
    (fits : transcript.body.length ≤ usizeMax) {span chunk : Span}
    (read : readSpan range transcript.body.length = .ok span)
    (suggested : chunk ∈ readChunks transcript span) :
    Returns merged (readLabel (view, matched, range) ++ formatSpan chunk) view
      transcript.body.length chunk ↔ Addressed merged query := by
  have ordered : span.start ≤ span.stop ∧ span.stop ≤ transcript.body.length := by
    unfold readSpan at read
    cases range with
    | none =>
        cases read
        exact ⟨Nat.zero_le _, le_refl _⟩
    | some req => exact ⟨(resolve_within read).1.le, (resolve_within read).2⟩
  obtain ⟨nonempty, within⟩ := mem_readChunks ordered.1 ordered.2 fits suggested
  rw [returns_iff unmarked nonempty within fits]
  rcases findSession_cases found with
    ⟨selected, rfl, rfl⟩ | ⟨suffix, req, rfl, filled, rfl, selected⟩
  · have named : readLabel (view, matched, none) = view.sessionId := rfl
    rw [named, ← addressed_iff selected]
    refine and_congr_right fun filled => ?_
    have member : view ∈ exactMatches merged view.sessionId :=
      mem_exactMatches.mpr ⟨mem_of_uniqueMatch selected, rfl⟩
    constructor
    · rintro ⟨again, same, -, -⟩
      rcases uniqueMatch_some_iff.mp same with own | ⟨none, -⟩ | ⟨untaken, -⟩
      · rw [own, List.mem_singleton] at member
        rw [own, member]
      · exact absurd (none ▸ member) List.not_mem_nil
      · exact absurd (untaken.1 ▸ member) List.not_mem_nil
    · intro own
      exact ⟨view, uniqueMatch_some_iff.mpr (.inl own), rfl, rfl⟩
  · have marked : '#' ∈ (matched ++ "#" ++ suffix).toList := by simp
    refine iff_of_true ⟨filled, view, selected, rfl, rfl⟩ ⟨?_, ?_⟩
    · intro empty
      rw [empty] at marked
      cases marked
    · intro _ other among titled
      exact absurd marked (unmarked.titles other among _ titled)

end Suggested

section Run

def noted (harness : HarnessId) (sessionId : String) (title : Option String) : LocalView where
  harness := harness
  sessionId := sessionId
  repoKey := some "r"
  source := sessionId
  fingerprint := "1:1"
  freshness := ⟨some 1, none, 2, sessionId⟩
  info := ⟨0, title, none, none, none⟩
  ambiguous := false

/-- Two harnesses gave their sessions the same id, and only one of them a title. -/
def sharedIds : List MergedView :=
  @select HarnessNames.snakeCase "r" none [noted .codex "x" (some "Notes"),
    noted .claudeCode "x" none] []

def ownIds : List MergedView :=
  @select HarnessNames.snakeCase "r" none [noted .codex "x" (some "Notes"),
    noted .claudeCode "y" none] []

/-- A session that is read by its title comes back by its own id. -/
theorem ownIds_returns : @Returns ownIds "x#2" (fromLocal (noted .codex "x" (some "Notes"))) 2
    ⟨1, 2⟩ := by
  have listed : ownIds = [fromLocal (noted .claudeCode "y" none),
      fromLocal (noted .codex "x" (some "Notes"))] := by decide +kernel
  have unmarked : Unmarked ownIds := by
    rw [listed]
    refine ⟨?_, ?_⟩
    · simp [fromLocal, noted]
    · simp [fromLocal, noted]
  have found : findSession ownIds "Notes" =
      .ok (fromLocal (noted .codex "x" (some "Notes")), "Notes", none) := by decide +kernel
  have addressed : Addressed ownIds "Notes" := by
    refine ⟨fun empty => absurd empty (by decide), ?_⟩
    intro _ view member titled
    rw [listed] at member ⊢
    simp only [List.mem_cons, List.not_mem_nil, or_false] at member
    rcases member with rfl | rfl
    · cases titled
    · decide +kernel
  have suggested : (⟨1, 2⟩ : Span) ∈ @readChunks TextFragment.long twoMessages ⟨0, 2⟩ := by
    rw [twoMessages_chunks]
    simp
  exact (@suggestion_returns_iff _ _ _ _ _ TextFragment.long unmarked found twoMessages
    (by decide) _ _ rfl suggested).mpr addressed

/-- Read by its title, a session with a shared id is offered under an ambiguous id. -/
theorem sharedIds_ambiguous :
    findSession sharedIds "Notes" =
      .ok (fromLocal (noted .codex "x" (some "Notes")), "Notes", none) ∧
    @suggestions TextFragment.long
        (readLabel (fromLocal (noted .codex "x" (some "Notes")), "Notes", none)) twoMessages
        ⟨0, 2⟩ = ["x#1", "x#2"] ∧
    findSession sharedIds "x#1" = .error (.msg "session id `x` is ambiguous") := by
  refine ⟨by decide +kernel, ?_, by decide +kernel⟩
  unfold suggestions
  rw [twoMessages_chunks]
  decide +kernel

end Run

end AgentTranscript
