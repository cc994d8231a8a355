import AgentTranscript.Search.Requests

/-!
Interleaved searches. A request answers from its own merged views, or from what
a request that merged later made of them, as long as no older request writes
over them in between.
-/

set_option autoImplicit false

namespace AgentTranscript

open Transition

section Holding

variable {Extracted Stored : Type} [Txcript Extracted]

def Phase.changes : Phase → List Change
  | .read _ changes => changes
  | _ => []

/-- The request is between its read section and its query. -/
def Phase.InProgress : Phase → Prop
  | .read _ _ | .written => True
  | .merged | .answered => False

/-- The list shows the session of `view` at the same fingerprint. -/
def Listing.ShowsAs (listing : Listing) (view : MergedView) : Prop :=
  ∃ own ∈ listing.views, own.pick ≠ .ambiguous ∧ own.docKey = view.docKey ∧
    fingerprintOf own = fingerprintOf view

/-- A request has put the document under `key` in place, or found it there. -/
def Phase.Settled (key : DocKey) : Phase → Prop
  | .read _ changes => ∀ change ∈ changes, change.key ≠ key
  | .written => True
  | .merged | .answered => False

theorem Phase.Settled.inProgress {key : DocKey} {phase : Phase} (settled : phase.Settled key) :
    phase.InProgress := by
  cases phase with
  | read => trivial
  | written => trivial
  | merged => exact settled
  | answered => exact settled

/-- The document stands at `fingerprint`, or a request that merged later has
replaced or dropped it. -/
def SearchServer.Holds (server : SearchServer Extracted Stored) (request : Nat) (key : DocKey)
    (fingerprint : String) : Prop :=
  server.runtime.fingerprint key = some fingerprint ∨
    ∃ later, server.touched key = some later ∧ request < later

/-- No request writes while a request that merged later is between its read section and its
query, unless both merged lists show the sessions of the later one alike. -/
def Considerate (server : SearchServer Extracted Stored) : SearchAction → Prop
  | .write place _ _ => ∀ request ∈ server.requests[place]?, ∀ newer ∈ server.requests.zipIdx,
      place < newer.2 → newer.1.phase.InProgress → ∀ view ∈ newer.1.listing.views,
        view.pick ≠ .ambiguous → request.listing.ShowsAs view
  | _ => True

/-- Every body a write section needs has loaded. -/
def BodiesLoad [HarnessNames] [DocumentReader] (server : SearchServer Extracted Stored) :
    SearchAction → Prop
  | .write place bodies _ => ∀ request ∈ server.requests[place]?,
      ∀ change ∈ request.phase.changes, (transcript bodies change.view).isOk = true
  | _ => True

instance : ∀ phase : Phase, Decidable phase.InProgress
  | .read _ _ | .written => inferInstanceAs (Decidable True)
  | .merged | .answered => inferInstanceAs (Decidable False)

instance (listing : Listing) (view : MergedView) : Decidable (listing.ShowsAs view) :=
  inferInstanceAs (Decidable (∃ own ∈ listing.views, _))

instance (server : SearchServer Extracted Stored) : ∀ action, Decidable (Considerate server action)
  | .write place _ _ => inferInstanceAs (Decidable (∀ request ∈ server.requests[place]?,
      ∀ newer ∈ server.requests.zipIdx, place < newer.2 → newer.1.phase.InProgress →
        ∀ view ∈ newer.1.listing.views, view.pick ≠ .ambiguous → request.listing.ShowsAs view))
  | .merge _ _ | .read _ | .query _ | .deliver _ => inferInstanceAs (Decidable True)

instance [HarnessNames] [DocumentReader] (server : SearchServer Extracted Stored) :
    ∀ action, Decidable (BodiesLoad server action)
  | .write place bodies _ => inferInstanceAs (Decidable (∀ request ∈ server.requests[place]?,
      ∀ change ∈ request.phase.changes, (transcript bodies change.view).isOk = true))
  | .merge _ _ | .read _ | .query _ | .deliver _ => inferInstanceAs (Decidable True)

end Holding

section Write

variable {Extracted Stored : Type} [HarnessNames] [DocumentCodec] [DocumentReader]
  [Txcript Extracted] [SnapshotCodec Extracted Stored]
  {server : SearchServer Extracted Stored} {request : Nat} {listing : Listing}
  {removes : List DocKey} {changes : List Change} {bodies : Bodies} {diskError : Option Error}
  {canWrite : Bool} {key : DocKey}

theorem write_lookup : (server.write canWrite request listing removes changes bodies
      diskError).runtime.documents.lookup key =
    (HashMap.lastOf ((loadChanges bodies changes).map fun document =>
      (document.key, (document.entry : DocEntry Extracted))) key).or
        (if key ∈ removes then none else server.runtime.documents.lookup key) := by
  rw [← apply_lookup, ← commit_documents _ _ _ canWrite diskError server.file]
  rfl

omit [HarnessNames] [DocumentCodec] [DocumentReader] [SnapshotCodec Extracted Stored] in
theorem touches_iff {runtime : Runtime Extracted} {documents : List (Document Extracted)} :
    runtime.touches removes documents key = true ↔
      (∃ document ∈ documents, document.key = key) ∨
        key ∈ removes ∧ runtime.documents.lookup key ≠ none := by
  simp only [Runtime.touches, Bool.or_eq_true, List.any_eq_true, decide_eq_true_eq,
    Bool.and_eq_true, List.contains_iff_mem, Option.isSome_iff_ne_none]

/-- A write leaves a document alone, drops it, or puts a change in its place. -/
theorem write_cases (after : SearchServer Extracted Stored)
    (wrote : after = server.write canWrite request listing removes changes bodies diskError)
    (key : DocKey) :
    (after.runtime.fingerprint key = server.runtime.fingerprint key ∧
      after.touched key = server.touched key ∧
      ∀ change ∈ changes, change.key = key →
        (transcript bodies change.view).isOk = false) ∨
    (after.touched key = some request ∧ key ∈ removes ∧
      server.runtime.documents.lookup key ≠ none) ∨
    (after.touched key = some request ∧ ∃ change ∈ changes, change.key = key ∧
      after.runtime.fingerprint key = some change.fingerprint) := by
  subst wrote
  have touched : (server.write canWrite request listing removes changes bodies
      diskError).touched key =
        if server.runtime.touches removes (loadChanges bodies changes) key then some request
        else server.touched key := rfl
  by_cases loaded : ∃ document ∈ (loadChanges bodies changes : List (Document Extracted)),
      document.key = key
  · obtain ⟨document, member, ofKey⟩ := loaded
    have touches : server.runtime.touches removes (loadChanges bodies changes) key = true :=
      touches_iff.mpr (.inl ⟨document, member, ofKey⟩)
    refine .inr (.inr ⟨by rw [touched, if_pos touches], ?_⟩)
    cases last : HashMap.lastOf ((loadChanges bodies changes).map fun document =>
        (document.key, (document.entry : DocEntry Extracted))) key with
    | none =>
        exact absurd ofKey (HashMap.lastOf_eq_none_iff.mp last _ (List.mem_map_of_mem member))
    | some entry =>
        obtain ⟨other, otherIn, shape⟩ := List.mem_map.mp (HashMap.mem_of_lastOf last)
        obtain ⟨change, changeIn, body, _, rfl⟩ := mem_loadChanges.mp otherIn
        cases shape
        refine ⟨change, changeIn, rfl, ?_⟩
        rw [Runtime.fingerprint, write_lookup, last]
        rfl
  · have last : HashMap.lastOf ((loadChanges bodies changes).map fun document =>
        (document.key, (document.entry : DocEntry Extracted))) key = none := by
      apply HashMap.lastOf_eq_none_iff.mpr
      intro entry present ofKey
      obtain ⟨document, member, rfl⟩ := List.mem_map.mp present
      exact loaded ⟨document, member, ofKey⟩
    have lookup : (server.write canWrite request listing removes changes bodies
        diskError).runtime.documents.lookup key =
          if key ∈ removes then none else server.runtime.documents.lookup key := by
      rw [write_lookup, last, Option.none_or]
    have touches : server.runtime.touches removes (loadChanges bodies changes) key = true ↔
        key ∈ removes ∧ server.runtime.documents.lookup key ≠ none := by
      rw [touches_iff, or_iff_right loaded]
    by_cases drops : key ∈ removes ∧ server.runtime.documents.lookup key ≠ none
    · exact .inr (.inl ⟨by rw [touched, if_pos (touches.mpr drops)], drops⟩)
    · refine .inl ⟨?_, by rw [touched, if_neg (fun yes => drops (touches.mp yes))], ?_⟩
      · rw [Runtime.fingerprint, Runtime.fingerprint, lookup]
        split_ifs with removed
        · have absent : server.runtime.documents.lookup key = none := by
            by_contra present
            exact drops ⟨removed, present⟩
          rw [absent]
        · rfl
      · intro change member ofKey
        cases read : transcript bodies change.view with
        | error error => rfl
        | ok body =>
            exact absurd ⟨_, mem_loadChanges.mpr ⟨change, member, body, read, rfl⟩, ofKey⟩ loaded

end Write

section Served

variable {Extracted Stored : Type} [Txcript Extracted] {server next : SearchServer Extracted Stored}

theorem Listing.wants (listing : Listing) {view : MergedView} (member : view ∈ listing.views)
    (picked : view.pick ≠ .ambiguous) :
    (wantedOf listing.views).lookup view.docKey = some (fingerprintOf view, view) :=
  (wantedOf_eq_some_iff listing.once).mpr ⟨member, picked, rfl, rfl⟩

/-- What a read section found stays within what its request wants. -/
def Request.Planned (request : Request) : Prop :=
  ∀ removes changes, request.phase = .read removes changes →
    (∀ key ∈ removes, (wantedOf request.listing.views).lookup key = none) ∧
    ∀ change ∈ changes,
      (wantedOf request.listing.views).lookup change.key = some (change.fingerprint, change.view)

/-- Every request finds what it has settled, or the work of a later one. -/
def AllServed (server : SearchServer Extracted Stored) : Prop :=
  ∀ place request, server.requests[place]? = some request →
    request.Planned ∧ ∀ view ∈ request.listing.views, view.pick ≠ .ambiguous →
      request.phase.Settled view.docKey →
        server.Holds place view.docKey (fingerprintOf view)

/-- A step that changes one request keeps the others served if it keeps what
they hold. -/
theorem AllServed.set (served : AllServed server) {place : Nat} {updated : Request}
    (requests : next.requests = server.requests.set place updated)
    (own : updated.Planned ∧ ∀ view ∈ updated.listing.views, view.pick ≠ .ambiguous →
      updated.phase.Settled view.docKey → next.Holds place view.docKey (fingerprintOf view))
    (kept : ∀ other request, other ≠ place → server.requests[other]? = some request →
      ∀ view ∈ request.listing.views, view.pick ≠ .ambiguous →
        request.phase.Settled view.docKey →
          server.Holds other view.docKey (fingerprintOf view) →
            next.Holds other view.docKey (fingerprintOf view)) : AllServed next := by
  intro other request found
  rw [requests, List.getElem?_set] at found
  split_ifs at found with same
  · cases found
    subst same
    exact own
  · obtain ⟨planned, holds⟩ := served other request found
    refine ⟨planned, ?_⟩
    intro view member picked settled
    exact kept other request (fun equal => same equal.symm) found view member picked settled
      (holds view member picked settled)

theorem merge_serves {listing : Listing} (served : AllServed server) :
    AllServed { server with requests := server.requests ++ [⟨listing, .merged⟩] } := by
  intro place request found
  rw [List.getElem?_append] at found
  split_ifs at found with old
  · exact served place request found
  · obtain rfl : request = ⟨listing, .merged⟩ := by
      simpa using List.mem_of_getElem? found
    constructor
    · intro removes changes phase
      cases phase
    · intro view _ _ settled
      exact settled.elim

/-- What a request wants and does not list as a change stands as it wants it. -/
theorem read_serves {place : Nat} {listing : Listing} (served : AllServed server) :
    AllServed (server.enter place listing (.read (server.runtime.removes (wantedOf listing.views))
      (server.runtime.changes (wantedOf listing.views)))) := by
  apply served.set rfl
  · refine ⟨?_, ?_⟩
    · intro removes changes phase
      cases phase
      exact ⟨fun key member => (mem_removes.mp member).2,
        fun change member => (mem_changes.mp member).1⟩
    · intro view member picked settled
      have want := listing.wants member picked
      left
      by_contra changed
      exact settled ⟨view.docKey, fingerprintOf view, view⟩ (mem_changes.mpr ⟨want, changed⟩) rfl
  · intro other request _ _ view _ _ _ held
    exact held

end Served

section Run

variable {Extracted Stored : Type} [HarnessNames] [DocumentCodec] [DocumentReader]
  [Txcript Extracted] [SnapshotCodec Extracted Stored] {repoKey : String} {canWrite : Bool}
  {runtime : Runtime Extracted} {file object : Option Stored}
  {server final : SearchServer Extracted Stored}

theorem write_serves {place : Nat} {listing : Listing} {removes : List DocKey}
    {changes : List Change} {bodies : Bodies} {diskError : Option Error}
    (served : AllServed server)
    (found : server.requests[place]? = some ⟨listing, .read removes changes⟩)
    (considerate : Considerate server (.write place bodies diskError))
    (loads : BodiesLoad server (.write place bodies diskError)) :
    AllServed (server.write canWrite place listing removes changes bodies diskError) := by
  obtain ⟨planned, holds⟩ := served place _ found
  obtain ⟨unwanted, wants⟩ := planned removes changes rfl
  apply served.set rfl
  · constructor
    · intro removes changes phase
      cases phase
    · intro view member picked _
      have want := listing.wants member picked
      rcases write_cases (server.write canWrite place listing removes changes bodies diskError)
        rfl view.docKey with alone | dropped | replaced
      · obtain ⟨sameFingerprint, sameTouch, unread⟩ := alone
        have settled : Phase.Settled view.docKey (.read removes changes) := by
          intro change changeIn ofKey
          have read := loads _ found change changeIn
          rw [unread change changeIn ofKey] at read
          cases read
        have held := holds view member picked settled
        rw [SearchServer.Holds, ← sameFingerprint, ← sameTouch] at held
        exact held
      · have absent := unwanted _ dropped.2.1
        rw [want] at absent
        cases absent
      · obtain ⟨_, change, changeIn, ofKey, stands⟩ := replaced
        have same := wants change changeIn
        rw [ofKey, want, Option.some.injEq, Prod.mk.injEq] at same
        exact .inl (same.1 ▸ stands)
  · intro other request apart present view member picked settled held
    have want (after : place < other) :
        ∃ own, (wantedOf listing.views).lookup view.docKey = some (fingerprintOf view, own) := by
      obtain ⟨own, shown, plain, ofKey, same⟩ := considerate _ found (request, other)
        (List.mk_mem_zipIdx_iff_getElem?.mpr present) after settled.inProgress view member picked
      exact ⟨own, by rw [← ofKey, ← same, listing.wants shown plain]⟩
    rcases write_cases (server.write canWrite place listing removes changes bodies diskError)
      rfl view.docKey with alone | dropped | replaced
    · rw [SearchServer.Holds, ← alone.1, ← alone.2.1] at held
      exact held
    · rcases Nat.lt_or_gt_of_ne apart with before | after
      · exact .inr ⟨place, dropped.1, before⟩
      · obtain ⟨own, wanted⟩ := want after
        have absent := unwanted _ dropped.2.1
        rw [wanted] at absent
        cases absent
    · obtain ⟨touched, change, changeIn, ofKey, stands⟩ := replaced
      rcases Nat.lt_or_gt_of_ne apart with before | after
      · exact .inr ⟨place, touched, before⟩
      · obtain ⟨own, wanted⟩ := want after
        have same := wants change changeIn
        rw [ofKey, wanted, Option.some.injEq, Prod.mk.injEq] at same
        exact .inl (same.1 ▸ stands)

/-- When a request queries, the document of each of its views stands at the
view's fingerprint, unless a request that merged later has replaced or dropped it. -/
theorem search_serves
    (run : SearchRun repoKey canWrite (fun server action => BodiesLoad server action ∧
      Considerate server action) runtime file object final)
    {place : Nat} {request : Request} (found : final.requests[place]? = some request)
    (querying : request.phase = .written) :
    ∀ view ∈ request.listing.views, view.pick ≠ .ambiguous →
      final.runtime.fingerprint view.docKey = some (fingerprintOf view) ∨
        ∃ later, final.touched view.docKey = some later ∧ place < later := by
  have served : AllServed final := by
    apply run.invariant AllServed
    · intro place request present
      cases present
    · intro server action next held permitted stepped
      obtain ⟨loads, considerate⟩ := permitted
      rcases searchStep_cases stepped with merges | reads | writes | answers | lands
      · obtain ⟨_, _, _, _, rfl⟩ := merges
        exact merge_serves held
      · obtain ⟨_, _, _, _, rfl⟩ := reads
        exact read_serves held
      · obtain ⟨_, _, _, _, _, _, rfl, present, rfl⟩ := writes
        exact write_serves held present considerate loads
      · obtain ⟨_, listing, _, _, rfl⟩ := answers
        apply held.set rfl
        · constructor
          · intro removes changes phase
            cases phase
          · intro view _ _ settled
            exact settled.elim
        · intro other request _ _ view _ _ _ holds
          exact holds
      · obtain ⟨_, _, _, _, rfl⟩ := lands
        exact held
  intro view member picked
  exact (served place request found).2 view member picked (by rw [querying]; trivial)

end Run

section Example

attribute [local instance] HarnessNames.snakeCase DocumentCodec.padded DocumentReader.plain
  Txcript.plain SnapshotCodec.plain

/-- Two searches that find the same list, the older of which writes last. -/
def searchedAlike : ExampleServer :=
  (execute (searchStep "repo" true) (fun server action => BodiesLoad server action ∧
    Considerate server action) freshServer
    [mergeLocal "1:2" "old", mergeLocal "1:2" "old", .read 0, .read 1,
      .write 1 (exampleBodies "old") none, .write 0 (exampleBodies "old") none]).getD freshServer

theorem search_serves_alike : ∃ request, searchedAlike.requests[1]? = some request ∧
    ∀ view ∈ request.listing.views, view.pick ≠ .ambiguous →
      searchedAlike.runtime.fingerprint view.docKey = some (fingerprintOf view) ∨
        ∃ later, searchedAlike.touched view.docKey = some later ∧ 1 < later := by
  have executed : execute (searchStep "repo" true) (fun server action =>
      BodiesLoad server action ∧ Considerate server action) freshServer
        [mergeLocal "1:2" "old", mergeLocal "1:2" "old", .read 0, .read 1,
          .write 1 (exampleBodies "old") none, .write 0 (exampleBodies "old") none] =
      some searchedAlike := rfl
  exact ⟨_, rfl, search_serves (run_of_execute executed) rfl rfl⟩

def undoneServer : ExampleServer :=
  (execute (searchStep "repo" true) BodiesLoad freshServer
    [mergeLocal "1:2" "old", mergeLocal "3:4" "new", .read 0, .read 1,
      .write 1 (exampleBodies "new") none, .write 0 (exampleBodies "old") none]).getD freshServer

/-- A slow request writes what it read before a newer one wrote, which then
queries the older body. -/
theorem search_undone :
    SearchRun "repo" true BodiesLoad (.empty "repo") none none undoneServer ∧
    ∃ request ∈ undoneServer.requests[1]?, request.phase = .written ∧
      ∃ view ∈ request.listing.views, view.pick ≠ .ambiguous ∧
        ¬ (undoneServer.runtime.fingerprint view.docKey = some (fingerprintOf view) ∨
          ∃ later, undoneServer.touched view.docKey = some later ∧ 1 < later) := by
  have executed : execute (searchStep "repo" true) BodiesLoad freshServer
      [mergeLocal "1:2" "old", mergeLocal "3:4" "new", .read 0, .read 1,
        .write 1 (exampleBodies "new") none, .write 0 (exampleBodies "old") none] =
      some undoneServer := rfl
  refine ⟨run_of_execute executed, _, rfl, rfl, _, List.mem_singleton.mpr rfl, by decide, ?_⟩
  intro either
  rcases either with stands | replaced
  · exact absurd stands (by decide +kernel)
  · obtain ⟨later, last, newer⟩ := replaced
    cases last
    omega

end Example

end AgentTranscript
