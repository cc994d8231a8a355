import AgentTranscript.Search.Runtime
import AgentTranscript.Search.SnapshotProperties
import AgentTranscript.Views.Selection

/-! What the sections of a sync do to the document map of a runtime. -/

set_option autoImplicit false

namespace AgentTranscript

open Loop

theorem wantedOf_mem {merged : List MergedView} {key : DocKey} {fingerprint : String}
    {view : MergedView} (want : (wantedOf merged).lookup key = some (fingerprint, view)) :
    view ∈ merged ∧ view.pick ≠ .ambiguous ∧ view.docKey = key ∧
      fingerprintOf view = fingerprint := by
  rw [wantedOf, HashMap.lookup_collect] at want
  obtain ⟨other, member, shape⟩ := List.mem_map.mp (HashMap.mem_of_lastOf want)
  cases shape
  obtain ⟨present, picked⟩ := List.mem_filter.mp member
  exact ⟨present, by simpa using picked, rfl, rfl⟩

theorem docKey_inj {left right : MergedView} : left.docKey = right.docKey ↔ left.key = right.key := by
  simp [MergedView.docKey, MergedView.key]

theorem wantedOf_eq_some_iff {merged : List MergedView}
    (unique : (merged.map MergedView.key).Nodup) {key : DocKey} {fingerprint : String}
    {view : MergedView} : (wantedOf merged).lookup key = some (fingerprint, view) ↔
      view ∈ merged ∧ view.pick ≠ .ambiguous ∧ view.docKey = key ∧
        fingerprintOf view = fingerprint := by
  constructor
  · exact wantedOf_mem
  · intro given
    obtain ⟨member, picked, rfl, rfl⟩ := given
    rw [wantedOf, HashMap.lookup_collect]
    apply HashMap.lastOf_of_mem
    · rw [List.map_map]
      have kept := unique.sublist ((List.filter_sublist
        (p := fun view : MergedView => view.pick ≠ .ambiguous)).map MergedView.key)
      apply List.Nodup.map_on _ kept.of_map
      intro left leftIn right rightIn same
      exact List.inj_on_of_nodup_map kept leftIn rightIn (docKey_inj.mp same)
    · exact List.mem_map.mpr ⟨view, List.mem_filter.mpr ⟨member, by simpa using picked⟩, rfl⟩

section Apply

variable {Extracted : Type} [Txcript Extracted] {runtime : Runtime Extracted}

def Document.entry (document : Document Extracted) : DocEntry Extracted :=
  .of document.fingerprint document.extracted

omit [Txcript Extracted] in
/-- Sorting keeps the order of documents with one key. -/
theorem sortDocuments_filter [HarnessNames] (documents : List (Document Extracted)) (key : DocKey) :
    ((sortDocuments documents).filter fun document => document.key = key) =
      documents.filter fun document => document.key = key := by
  have level : (documents.filter fun document => document.key = key).Pairwise
      fun left right => left.key.sortKey ≤ right.key.sortKey := by
    apply List.pairwise_of_forall_mem_list
    intro left leftIn right rightIn
    have leftKey : left.key = key := by simpa using (List.mem_filter.mp leftIn).2
    have rightKey : right.key = key := by simpa using (List.mem_filter.mp rightIn).2
    rw [leftKey, rightKey]
  have kept := (List.sublist_insertionSort level List.filter_sublist).filter
    fun document => decide (document.key = key)
  rw [List.filter_filter] at kept
  simp only [Bool.and_self] at kept
  have sized := ((List.perm_insertionSort (fun left right : Document Extracted =>
    left.key.sortKey ≤ right.key.sortKey) documents).filter
      fun document => decide (document.key = key)).length_eq
  exact (kept.eq_of_length sized.symm).symm

theorem intoRuntime_lookup [HarnessNames] {snapshot : Snapshot Extracted}
    {documents : List (Document Extracted)}
    (sorted : snapshot.documents = sortDocuments documents) (key : DocKey) :
    snapshot.intoRuntime.documents.lookup key =
      HashMap.lastOf (documents.map fun document => (document.key, document.entry)) key := by
  rw [Snapshot.intoRuntime, HashMap.lookup_collect, sorted]
  apply HashMap.lastOf_congr
  have shape : ∀ items : List (Document Extracted),
      ((items.map fun document => (document.key, document.entry)).filter
        fun entry => entry.1 = key) =
      (items.filter fun document => document.key = key).map
        fun document => (document.key, document.entry) := by
    intro items
    rw [List.filter_map]
    rfl
  exact (shape _).trans ((congrArg _ (sortDocuments_filter documents key)).trans (shape _).symm)

theorem removeAll_documents (runtime : Runtime Extracted) (removes : List DocKey) :
    (removes.foldl Runtime.remove runtime).documents =
      HashMap.eraseAll runtime.documents removes := by
  induction removes generalizing runtime with
  | nil => rfl
  | cons key rest ih => exact ih (runtime.remove key)

theorem upsertAll_documents (runtime : Runtime Extracted) (documents : List (Document Extracted)) :
    (documents.foldl (fun runtime document =>
      runtime.upsert document.key document.fingerprint document.extracted) runtime).documents =
      HashMap.insertAll runtime.documents
        (documents.map fun document => (document.key, document.entry)) := by
  induction documents generalizing runtime with
  | nil => rfl
  | cons document rest ih => exact ih _

theorem apply_repoKey (runtime : Runtime Extracted) (removes : List DocKey)
    (documents : List (Document Extracted)) :
    (runtime.apply removes documents).repoKey = runtime.repoKey := by
  have removed : (removes.foldl Runtime.remove runtime).repoKey = runtime.repoKey := by
    induction removes generalizing runtime with
    | nil => rfl
    | cons key rest ih => exact ih (runtime.remove key)
  rw [← removed, Runtime.apply]
  generalize removes.foldl Runtime.remove runtime = current
  induction documents generalizing current with
  | nil => rfl
  | cons document rest ih => exact ih _

/-- What the write section leaves under a key: the document loaded for it, or
nothing if it is removed, or what was there. -/
theorem apply_lookup (runtime : Runtime Extracted) (removes : List DocKey)
    (documents : List (Document Extracted)) (key : DocKey) :
    (runtime.apply removes documents).documents.lookup key =
      (HashMap.lastOf (documents.map fun document => (document.key, document.entry)) key).or
        (if key ∈ removes then none else runtime.documents.lookup key) := by
  rw [Runtime.apply, upsertAll_documents, removeAll_documents, HashMap.lookup_insertAll,
    HashMap.lookup_eraseAll]

theorem mem_removes {wanted : HashMap DocKey (String × MergedView)} {key : DocKey} :
    key ∈ runtime.removes wanted ↔
      runtime.documents.lookup key ≠ none ∧ wanted.lookup key = none := by
  simp [Runtime.removes, HashMap.mem_keys_iff]

theorem mem_changes {wanted : HashMap DocKey (String × MergedView)} {change : Change} :
    change ∈ runtime.changes wanted ↔
      wanted.lookup change.key = some (change.fingerprint, change.view) ∧
        runtime.fingerprint change.key ≠ some change.fingerprint := by
  obtain ⟨key, fingerprint, view⟩ := change
  simp only [Runtime.changes, List.mem_map, List.mem_filter, decide_eq_true_eq]
  constructor
  · intro given
    obtain ⟨entry, ⟨member, changed⟩, shape⟩ := given
    cases shape
    exact ⟨HashMap.mem_entries_iff.mp member, changed⟩
  · intro given
    exact ⟨⟨key, (fingerprint, view)⟩, ⟨HashMap.mem_entries_iff.mpr given.1, given.2⟩, rfl⟩

theorem changes_unique (runtime : Runtime Extracted)
    (wanted : HashMap DocKey (String × MergedView)) :
    ((runtime.changes wanted).map (·.key)).Nodup := by
  rw [Runtime.changes, List.map_map]
  exact wanted.keys_nodup.sublist (List.filter_sublist.map Sigma.fst)

end Apply

section Sync

variable {Extracted : Type} [HarnessNames] [DocumentReader] [Txcript Extracted]
  {runtime : Runtime Extracted} {bodies : Bodies} {changes : List Change}

theorem mem_loadChanges {document : Document Extracted} :
    document ∈ loadChanges bodies changes ↔ ∃ change ∈ changes, ∃ body,
      transcript bodies change.view = .ok body ∧
      document = ⟨change.key, change.fingerprint, Txcript.extract change.key body⟩ := by
  simp only [loadChanges, List.mem_filterMap]
  constructor
  · intro given
    obtain ⟨change, member, made⟩ := given
    cases loaded : transcript bodies change.view with
    | error error => simp [loaded] at made
    | ok body =>
        rw [loaded] at made
        cases made
        exact ⟨change, member, body, loaded, rfl⟩
  · intro given
    obtain ⟨change, member, body, loaded, rfl⟩ := given
    exact ⟨change, member, by rw [loaded]⟩

theorem loadChanges_unique (unique : (changes.map (·.key)).Nodup) :
    ((loadChanges bodies changes : List (Document Extracted)).map (·.key)).Nodup := by
  induction changes with
  | nil => exact List.nodup_nil
  | cons change rest ih =>
      obtain ⟨apart, others⟩ := List.nodup_cons.mp unique
      have step : (loadChanges bodies (change :: rest) : List (Document Extracted)) =
          (loadChanges bodies [change]) ++ loadChanges bodies rest := by
        simp only [loadChanges, ← List.filterMap_append, List.singleton_append]
      cases loaded : transcript bodies change.view with
      | error error =>
          have dropped : (loadChanges bodies [change] : List (Document Extracted)) = [] := by
            simp [loadChanges, loaded]
          rw [step, dropped, List.nil_append]
          exact ih others
      | ok body =>
          have kept : (loadChanges bodies [change] : List (Document Extracted)) =
              [⟨change.key, change.fingerprint, Txcript.extract change.key body⟩] := by
            simp [loadChanges, loaded]
          rw [step, kept, List.singleton_append, List.map_cons, List.nodup_cons]
          refine ⟨?_, ih others⟩
          intro member
          obtain ⟨document, present, same⟩ := List.mem_map.mp member
          obtain ⟨other, otherIn, _, _, rfl⟩ := mem_loadChanges.mp present
          exact apart (List.mem_map.mpr ⟨other, otherIn, same⟩)

/-- The entry a request wants under a key, once its body is read. -/
def freshEntry (bodies : Bodies) (key : DocKey) (fingerprint : String) (view : MergedView) :
    Option (DocEntry Extracted) :=
  match transcript bodies view with
  | .ok body => some (.of fingerprint (Txcript.extract key body))
  | .error _ => none

theorem loadChanges_lookup {wanted : HashMap DocKey (String × MergedView)} (key : DocKey) :
    HashMap.lastOf ((loadChanges bodies (runtime.changes wanted)).map fun document =>
        (document.key, (document.entry : DocEntry Extracted))) key =
      (wanted.lookup key).bind fun entry =>
        if runtime.fingerprint key = some entry.1 then none
        else freshEntry bodies key entry.1 entry.2 := by
  have unique : (((loadChanges bodies (runtime.changes wanted)).map fun document =>
      (document.key, (document.entry : DocEntry Extracted))).map (·.1)).Nodup := by
    rw [List.map_map]
    exact loadChanges_unique (changes_unique runtime wanted)
  apply Option.ext
  intro entry
  constructor
  · intro found
    obtain ⟨document, member, shape⟩ := List.mem_map.mp (HashMap.mem_of_lastOf found)
    obtain ⟨change, present, body, loaded, rfl⟩ := mem_loadChanges.mp member
    obtain ⟨want, changed⟩ := mem_changes.mp present
    cases shape
    simp only [want, Option.bind_some, changed, if_false, freshEntry, loaded]
    rfl
  · intro given
    obtain ⟨⟨fingerprint, view⟩, want, given⟩ := Option.bind_eq_some_iff.mp given
    dsimp only at given
    split_ifs at given with unchanged
    unfold freshEntry at given
    cases loaded : transcript bodies view with
    | error error => simp [loaded] at given
    | ok body =>
        rw [loaded] at given
        cases given
        apply HashMap.lastOf_of_mem unique
        refine List.mem_map.mpr ⟨⟨key, fingerprint, Txcript.extract key body⟩, ?_, rfl⟩
        exact mem_loadChanges.mpr ⟨⟨key, fingerprint, view⟩, mem_changes.mpr ⟨want, unchanged⟩,
          body, loaded, rfl⟩

/-- The documents of a rebuild are the fresh entries of what is wanted. -/
theorem freshDocuments_lookup {merged : List MergedView} {documents : List (Document Extracted)}
    (fresh : freshDocuments bodies merged = .ok documents) (key : DocKey) :
    HashMap.lastOf (documents.map fun document => (document.key, document.entry)) key =
      ((wantedOf merged).lookup key).bind fun want => freshEntry bodies key want.1 want.2 := by
  rw [wantedOf, HashMap.lookup_collect]
  unfold freshDocuments at fresh
  generalize (merged.filter fun view => view.pick ≠ .ambiguous) = views at fresh
  induction views generalizing documents with
  | nil =>
      cases fresh
      rfl
  | cons view rest ih =>
      obtain ⟨first, later, made, recursive, rfl⟩ := mapM_cons_ok fresh
      obtain ⟨body, loaded, made⟩ := bind_ok made
      cases made
      rw [List.map_cons, List.map_cons, HashMap.lastOf_cons, HashMap.lastOf_cons, ih recursive]
      cases wanted : HashMap.lastOf (rest.map fun view =>
          (view.docKey, (fingerprintOf view, view))) key with
      | some want =>
          obtain ⟨other, member, shape⟩ := List.mem_map.mp (HashMap.mem_of_lastOf wanted)
          cases shape
          obtain ⟨document, _, found⟩ := mem_of_mapM_item recursive member
          obtain ⟨otherBody, otherLoaded, _⟩ := bind_ok found
          simp [freshEntry, otherLoaded]
      | none =>
          by_cases same : view.docKey = key
          · subst same
            simp [freshEntry, loaded, Document.entry]
          · simp [same]

/-- What a sync leaves under a key it wants. -/
def syncedEntry (bodies : Bodies) (key : DocKey) (held : Option (DocEntry Extracted))
    (want : String × MergedView) : Option (DocEntry Extracted) :=
  if held.map (·.fingerprint) = some want.1 then held
  else (freshEntry bodies key want.1 want.2).or held

theorem sync_lookup (runtime : Runtime Extracted) (bodies : Bodies)
    (wanted : HashMap DocKey (String × MergedView)) (key : DocKey) :
    (runtime.apply (runtime.removes wanted)
        (loadChanges bodies (runtime.changes wanted))).documents.lookup key =
      (wanted.lookup key).bind (syncedEntry bodies key (runtime.documents.lookup key)) := by
  rw [apply_lookup, loadChanges_lookup]
  cases want : wanted.lookup key with
  | none =>
      cases held : runtime.documents.lookup key with
      | none => simp
      | some entry =>
          have removed : key ∈ runtime.removes wanted := mem_removes.mpr ⟨by simp [held], want⟩
          simp [removed]
  | some entry =>
      have kept : key ∉ runtime.removes wanted := by
        intro removed
        rw [(mem_removes.mp removed).2] at want
        cases want
      have held : runtime.fingerprint key =
          (runtime.documents.lookup key).map (·.fingerprint) := rfl
      simp only [Option.bind_some, if_neg kept, syncedEntry, ← held]
      by_cases unchanged : runtime.fingerprint key = some entry.1
      · rw [if_pos unchanged, if_pos unchanged, Option.none_or]
      · rw [if_neg unchanged, if_neg unchanged]

end Sync

section Persist

variable {Extracted Stored : Type} [HarnessNames] [DocumentCodec] [Txcript Extracted]
  [SnapshotCodec Extracted Stored] {runtime : Runtime Extracted} {diskError : Option Error}
  {file : Option Stored}

/-- Saving changes no document, and what it saves is the runtime's snapshot. -/
theorem persist_cases (runtime : Runtime Extracted) (diskError : Option Error)
    (file : Option Stored) :
    (∃ outcome, outcome ≠ .ok true ∧
      runtime.persist diskError file = (outcome, runtime, file)) ∨
    ∃ snapshot stored, runtime.dirty = true ∧ runtime.toSnapshot = .ok snapshot ∧
      SnapshotCodec.toBytes snapshot = .ok stored ∧
      runtime.persist diskError file = (.ok true, { runtime with dirty := false }, some stored) := by
  unfold Runtime.persist
  cases changed : runtime.dirty with
  | false => exact .inl ⟨.ok false, by simp, by simp⟩
  | true =>
      cases made : runtime.toSnapshot with
      | error error => exact .inl ⟨.error error, by simp, by simp⟩
      | ok snapshot =>
          rcases saveLocal_cases snapshot diskError file with unsaved | written
          · obtain ⟨error, shape⟩ := unsaved
            exact .inl ⟨.error error, by simp, by simp [shape]⟩
          · obtain ⟨stored, produced, shape⟩ := written
            exact .inr ⟨snapshot, stored, rfl, rfl, produced, by simp [shape]⟩

theorem commit_documents (runtime : Runtime Extracted) (removes : List DocKey)
    (documents : List (Document Extracted)) (canWrite : Bool) (diskError : Option Error)
    (file : Option Stored) :
    (runtime.commit removes documents canWrite diskError file).1.documents =
      (runtime.apply removes documents).documents := by
  unfold Runtime.commit
  rcases persist_cases (runtime.apply removes documents) diskError file with kept | saved
  · obtain ⟨outcome, _, shape⟩ := kept
    rw [shape]
    cases outcome <;> rfl
  · obtain ⟨snapshot, stored, _, _, _, shape⟩ := saved
    rw [shape]

end Persist

end AgentTranscript
