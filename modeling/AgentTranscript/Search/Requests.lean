import AgentTranscript.Library.Transition
import AgentTranscript.Search.RuntimeProperties

/-!
Concurrent searches of one repository on one server. A request merges, reads
the shared runtime, loads bodies, writes the runtime and queries it, each under
a lock of its own; snapshots are published in the background.
-/

set_option autoImplicit false

namespace AgentTranscript

open Loop Transition

/-- A catalog that lists every session once. -/
structure KeyedCatalog where
  catalog : Catalog
  unique : (catalog.sessions.map (·.key)).Nodup

/-- The merged views of a request, one for each session. -/
structure Listing where
  views : List MergedView
  once : (views.map MergedView.key).Nodup

section Listing

variable [HarnessNames]

theorem merged_once {repoKey : String} {records : List SourceRecord} (keyed : KeyedCatalog)
    {views : List MergedView}
    (made : merged repoKey none (localViews records) keyed.catalog = .ok views) :
    (views.map MergedView.key).Nodup := by
  obtain ⟨remotes, archived, chosen⟩ := bind_ok made
  cases chosen
  exact (selection_of_scope (localsInScope_nodup (localViews_nodup records))
    (remotesInScope_nodup (remoteViews_reflects keyed.unique archived).unique)).once

/-- What a request merges: the whole repository, whatever harness it selects. -/
def Listing.merge (repoKey : String) (records : List SourceRecord) (keyed : KeyedCatalog) :
    Except Error Listing :=
  match made : merged repoKey none (localViews records) keyed.catalog with
  | .error error => .error error
  | .ok views => .ok ⟨views, merged_once keyed made⟩

end Listing

/-- Where a search is: what its read section found stays in local variables
until its write section. -/
inductive Phase where
  | merged
  | read (removes : List DocKey) (changes : List Change)
  | written
  | answered

structure Request where
  listing : Listing
  phase : Phase

/-- `requests` stand in the order of their merges and `inFlight` are the PUTs on
their way. `touched` and `persisted` are history: the last request that replaced
or dropped a document, and the snapshot saved last. -/
structure SearchServer (Extracted Stored : Type) [Txcript Extracted] where
  runtime : Runtime Extracted
  file : Option Stored
  requests : List Request
  inFlight : List Stored
  object : Option Stored
  touched : DocKey → Option Nat
  persisted : Option Stored

inductive SearchAction where
  | merge (records : List SourceRecord) (keyed : KeyedCatalog)
  | read (request : Nat)
  | write (request : Nat) (bodies : Bodies) (diskError : Option Error)
  | query (request : Nat)
  | deliver (put : Nat)

section Steps

variable {Extracted Stored : Type} [HarnessNames] [DocumentCodec] [DocumentReader]
  [Txcript Extracted] [SnapshotCodec Extracted Stored]

omit [HarnessNames] [DocumentCodec] [DocumentReader] [SnapshotCodec Extracted Stored] in
def SearchServer.start (runtime : Runtime Extracted) (file object : Option Stored) :
    SearchServer Extracted Stored where
  runtime := runtime
  file := file
  requests := []
  inFlight := []
  object := object
  touched _ := none
  persisted := none

omit [HarnessNames] [DocumentCodec] [DocumentReader] in
/-- Whether applying replaces or drops the document under `key`. -/
def Runtime.touches (runtime : Runtime Extracted) (removes : List DocKey)
    (documents : List (Document Extracted)) (key : DocKey) : Bool :=
  documents.any (fun document => document.key = key) ||
    (removes.contains key && (runtime.documents.lookup key).isSome)

omit [DocumentReader] in
def Runtime.saves (runtime : Runtime Extracted) (diskError : Option Error)
    (file : Option Stored) : Option Stored :=
  match runtime.persist diskError file with
  | (.ok true, _, saved) => saved
  | _ => none

omit [HarnessNames] [DocumentCodec] [DocumentReader] [SnapshotCodec Extracted Stored] in
def SearchServer.enter (server : SearchServer Extracted Stored) (request : Nat) (listing : Listing)
    (phase : Phase) : SearchServer Extracted Stored :=
  { server with requests := server.requests.set request ⟨listing, phase⟩ }

def SearchServer.write (canWrite : Bool) (server : SearchServer Extracted Stored) (request : Nat)
    (listing : Listing) (removes : List DocKey) (changes : List Change) (bodies : Bodies)
    (diskError : Option Error) : SearchServer Extracted Stored :=
  let documents := loadChanges bodies changes
  let (runtime, file, published) :=
    server.runtime.commit removes documents canWrite diskError server.file
  { runtime := runtime
    file := file
    requests := server.requests.set request ⟨listing, .written⟩
    inFlight := server.inFlight ++ published.toList
    object := server.object
    touched := fun key =>
      if server.runtime.touches removes documents key then some request else server.touched key
    persisted :=
      ((server.runtime.apply removes documents).saves diskError server.file).or server.persisted }

def searchStep (repoKey : String) (canWrite : Bool) (server : SearchServer Extracted Stored) :
    SearchAction → Option (SearchServer Extracted Stored)
  | .merge records keyed =>
      match Listing.merge repoKey records keyed with
      | .error _ => none
      | .ok listing => some { server with requests := server.requests ++ [⟨listing, .merged⟩] }
  | .read request =>
      match server.requests[request]? with
      | some ⟨listing, .merged⟩ =>
          let wanted := wantedOf listing.views
          some (server.enter request listing
            (.read (server.runtime.removes wanted) (server.runtime.changes wanted)))
      | _ => none
  | .write request bodies diskError =>
      match server.requests[request]? with
      | some ⟨listing, .read removes changes⟩ =>
          some (server.write canWrite request listing removes changes bodies diskError)
      | _ => none
  | .query request =>
      match server.requests[request]? with
      | some ⟨listing, .written⟩ => some (server.enter request listing .answered)
      | _ => none
  | .deliver put =>
      match server.inFlight[put]? with
      | some plain => some { server with
          inFlight := server.inFlight.eraseIdx put
          object := some plain }
      | none => none

/-- The runs of a server in which every action is `allowed`. -/
abbrev SearchRun (repoKey : String) (canWrite : Bool)
    (allowed : SearchServer Extracted Stored → SearchAction → Prop)
    (runtime : Runtime Extracted) (file object : Option Stored)
    (server : SearchServer Extracted Stored) : Prop :=
  Run (searchStep repoKey canWrite) allowed (.start runtime file object) server

end Steps

section Cases

variable {Extracted Stored : Type} [HarnessNames] [DocumentCodec] [DocumentReader]
  [Txcript Extracted] [SnapshotCodec Extracted Stored] {repoKey : String} {canWrite : Bool}
  {server next : SearchServer Extracted Stored} {action : SearchAction}

/-- What a step can do. -/
theorem searchStep_cases (stepped : searchStep repoKey canWrite server action = some next) :
    (∃ records keyed listing, action = .merge records keyed ∧
      next = { server with requests := server.requests ++ [⟨listing, .merged⟩] }) ∨
    (∃ request listing, action = .read request ∧
      server.requests[request]? = some ⟨listing, .merged⟩ ∧
      next = server.enter request listing
        (.read (server.runtime.removes (wantedOf listing.views))
          (server.runtime.changes (wantedOf listing.views)))) ∨
    (∃ request bodies diskError listing removes changes,
      action = .write request bodies diskError ∧
      server.requests[request]? = some ⟨listing, .read removes changes⟩ ∧
      next = server.write canWrite request listing removes changes bodies diskError) ∨
    (∃ request listing, action = .query request ∧
      server.requests[request]? = some ⟨listing, .written⟩ ∧
      next = server.enter request listing .answered) ∨
    ∃ put plain, action = .deliver put ∧ server.inFlight[put]? = some plain ∧
      next = { server with inFlight := server.inFlight.eraseIdx put, object := some plain } := by
  cases action with
  | merge records keyed =>
      simp only [searchStep] at stepped
      split at stepped
      · cases stepped
      · rename_i listing _
        exact .inl ⟨records, keyed, listing, rfl, (Option.some.inj stepped).symm⟩
  | read request =>
      simp only [searchStep] at stepped
      split at stepped
      · rename_i listing found
        exact .inr (.inl ⟨request, listing, rfl, found, (Option.some.inj stepped).symm⟩)
      · cases stepped
  | write request bodies diskError =>
      simp only [searchStep] at stepped
      split at stepped
      · rename_i listing removes changes found
        exact .inr (.inr (.inl ⟨request, bodies, diskError, listing, removes, changes, rfl, found,
          (Option.some.inj stepped).symm⟩))
      · cases stepped
  | query request =>
      simp only [searchStep] at stepped
      split at stepped
      · rename_i listing found
        exact .inr (.inr (.inr (.inl ⟨request, listing, rfl, found,
          (Option.some.inj stepped).symm⟩)))
      · cases stepped
  | deliver put =>
      simp only [searchStep] at stepped
      split at stepped
      · rename_i plain found
        exact .inr (.inr (.inr (.inr ⟨put, plain, rfl, found, (Option.some.inj stepped).symm⟩)))
      · cases stepped

end Cases

section Example

attribute [local instance] HarnessNames.snakeCase DocumentCodec.padded DocumentReader.plain
  Txcript.plain SnapshotCodec.plain

abbrev ExampleServer := SearchServer (DocKey × Transcript) (Snapshot (DocKey × Transcript) ⊕ Bytes)

def freshServer : ExampleServer :=
  .start (.empty "repo") none none

def localsOnly : KeyedCatalog where
  catalog := .empty
  unique := List.nodup_nil

/-- A merge that finds one local source. -/
def mergeLocal (fingerprint rest : String) : SearchAction :=
  .merge [{ readyRecord "/a.jsonl" rest 1 with fingerprint := fingerprint }] localsOnly

end Example

end AgentTranscript
