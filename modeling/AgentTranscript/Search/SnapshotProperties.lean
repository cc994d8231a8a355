import AgentTranscript.Library.Loop
import AgentTranscript.Search.Snapshot

/-!
The rebuild against extraction of every body: reused documents change nothing,
but a file that is not accepted stops the rebuild that would replace it.
-/

set_option autoImplicit false

namespace AgentTranscript

open Loop

section Rebuild

variable {Extracted : Type} [HarnessNames] [DocumentReader] [Txcript Extracted]

def Loads (bodies : Bodies) (merged : List MergedView) : Prop :=
  ∀ view ∈ merged, view.pick ≠ .ambiguous → ∃ body, transcript bodies view = .ok body

/-- Extraction of the bodies with this key and fingerprint gives `extracted`. -/
def Extracts (bodies : Bodies) (merged : List MergedView) (key : DocKey) (fingerprint : String)
    (extracted : Extracted) : Prop :=
  ∀ view ∈ merged, view.pick ≠ .ambiguous → view.docKey = key → fingerprintOf view = fingerprint →
    ∀ body, transcript bodies view = .ok body → extracted = Txcript.extract key body

def PriorExtracts (bodies : Bodies) (merged : List MergedView)
    (prior : HashMap (DocKey × String) Extracted) : Prop :=
  ∀ key fingerprint extracted, fingerprint ≠ "" →
    prior.lookup (key, fingerprint) = some extracted →
    Extracts bodies merged key fingerprint extracted

def freshDocument (bodies : Bodies) (view : MergedView) : Except Error (Document Extracted) := do
  let body ← transcript bodies view
  .ok ⟨view.docKey, fingerprintOf view, Txcript.extract view.docKey body⟩

def freshDocuments (bodies : Bodies) (merged : List MergedView) :
    Except Error (List (Document Extracted)) :=
  (merged.filter fun view => view.pick ≠ .ambiguous).mapM (freshDocument bodies)

variable {merged : List MergedView} {bodies : Bodies}

variable (Extracted) in
theorem freshDocuments_total (loads : Loads bodies merged) :
    ∃ documents : List (Document Extracted), freshDocuments bodies merged = .ok documents := by
  apply mapM_total
  intro view member
  obtain ⟨present, picked⟩ := List.mem_filter.mp member
  obtain ⟨body, loaded⟩ := loads view present (by simpa using picked)
  exact ⟨_, by rw [freshDocument, loaded, ok_bind]⟩

theorem freshDocuments_key {documents : List (Document Extracted)}
    (fresh : freshDocuments bodies merged = .ok documents) {document : Document Extracted}
    (member : document ∈ documents) : Txcript.key document.extracted = document.key := by
  obtain ⟨view, _, made⟩ := (mem_of_mapM_ok fresh).mp member
  obtain ⟨body, _, made⟩ := bind_ok made
  cases made
  exact Txcript.key_extract _ _

theorem PriorExtracts.erase {prior : HashMap (DocKey × String) Extracted}
    (kept : PriorExtracts bodies merged prior) (used : DocKey × String) :
    PriorExtracts bodies merged (prior.erase used) := by
  intro key fingerprint extracted known found
  rw [HashMap.lookup_erase_eq] at found
  split_ifs at found
  exact kept key fingerprint extracted known found

/-- A turn pushes what extraction of the body gives, whether it reuses or reads. -/
theorem rebuildStep_fresh {prior : HashMap (DocKey × String) Extracted}
    (kept : PriorExtracts bodies merged prior) {view : MergedView} (member : view ∈ merged)
    (picked : view.pick ≠ .ambiguous) {body : Transcript}
    (loaded : transcript bodies view = .ok body) (documents : List (Document Extracted)) :
    ∃ left, PriorExtracts bodies merged left ∧ rebuildStep bodies (prior, documents) view =
      .ok (left, documents ++
        [⟨view.docKey, fingerprintOf view, Txcript.extract view.docKey body⟩]) := by
  by_cases unknown : (fingerprintOf view).isEmpty = true
  · refine ⟨prior, kept, ?_⟩
    simp [rebuildStep, picked, unknown, loaded]
  · refine ⟨prior.erase (view.docKey, fingerprintOf view), kept.erase _, ?_⟩
    have known : fingerprintOf view ≠ "" := by simpa [String.isEmpty_iff] using unknown
    cases found : prior.lookup (view.docKey, fingerprintOf view) with
    | none =>
        simp [rebuildStep, picked, unknown, AList.extract_eq_lookup_erase, found, loaded]
    | some extracted =>
        have same := kept _ _ _ known found view member picked rfl rfl body loaded
        simp [rebuildStep, picked, unknown, AList.extract_eq_lookup_erase, found, same]

theorem rebuild_documents {views : List MergedView}
    (included : ∀ view ∈ views, view ∈ merged) {prior : HashMap (DocKey × String) Extracted}
    (kept : PriorExtracts bodies merged prior) (documents : List (Document Extracted))
    {fresh : List (Document Extracted)} (made : freshDocuments bodies views = .ok fresh) :
    ∃ left, views.foldlM (rebuildStep bodies) (prior, documents) =
      .ok (left, documents ++ fresh) := by
  induction views generalizing prior documents fresh with
  | nil =>
      cases made
      exact ⟨prior, by rw [foldlM_nil]; simp⟩
  | cons view rest ih =>
      have member := included view List.mem_cons_self
      have others := fun other (present : other ∈ rest) =>
        included other (List.mem_cons_of_mem view present)
      rw [foldlM_cons]
      by_cases picked : view.pick = .ambiguous
      · have skipped : rebuildStep bodies (prior, documents) view = .ok (prior, documents) := by
          simp [rebuildStep, picked]
        rw [freshDocuments, List.filter_cons_of_neg (by simpa using picked)] at made
        rw [skipped, ok_bind]
        exact ih others kept documents made
      · rw [freshDocuments, List.filter_cons_of_pos (by simpa using picked)] at made
        obtain ⟨first, later, extracted, recursive, rfl⟩ := mapM_cons_ok made
        obtain ⟨body, loaded, shape⟩ := bind_ok extracted
        cases shape
        obtain ⟨left, stillKept, stepped⟩ := rebuildStep_fresh kept member picked loaded documents
        obtain ⟨final, finished⟩ := ih others stillKept
          (documents ++ [⟨view.docKey, fingerprintOf view, Txcript.extract view.docKey body⟩])
          recursive
        exact ⟨final, by rw [stepped, ok_bind, finished, List.append_assoc, List.singleton_append]⟩

end Rebuild

section File

variable {Extracted Stored : Type} [Txcript Extracted] [SnapshotCodec Extracted Stored]

variable (Extracted) in
/-- The local file is absent, or a snapshot that loading it accepts. -/
def Accepted (repoKey : String) (file : Option Stored) : Prop :=
  ∀ stored, file = some stored → ∃ snapshot : Snapshot Extracted,
    SnapshotCodec.fromSlice stored = .ok snapshot ∧ snapshot.validate (some repoKey) = .ok ()

theorem Snapshot.validate_ok_iff {snapshot : Snapshot Extracted} {repoKey : String} :
    snapshot.validate (some repoKey) = .ok () ↔
      snapshot.schema = searchSchema ∧ snapshot.format = searchFormat ∧
        snapshot.repoKey = repoKey ∧
        ∀ document ∈ snapshot.documents, Txcript.key document.extracted = document.key := by
  unfold Snapshot.validate
  rw [Option.filter_some]
  by_cases schema : snapshot.schema = searchSchema
  · by_cases format : snapshot.format = searchFormat
    · by_cases owner : snapshot.repoKey = repoKey <;> simp [schema, format, owner]
    · simp [schema, format]
  · simp [schema]

theorem saveLocal_cases (snapshot : Snapshot Extracted) (diskError : Option Error)
    (file : Option Stored) :
    (∃ error, saveLocal diskError snapshot file = (.error error, file)) ∨
    ∃ stored, SnapshotCodec.toBytes snapshot = .ok stored ∧
      saveLocal diskError snapshot file = (.ok (), some stored) := by
  unfold saveLocal
  cases checked : snapshot.validate (some snapshot.repoKey) with
  | error error => exact .inl ⟨error, rfl⟩
  | ok _ =>
      cases written : SnapshotCodec.toBytes snapshot with
      | error error => exact .inl ⟨error, rfl⟩
      | ok stored =>
          cases diskError with
          | some error => exact .inl ⟨error, rfl⟩
          | none => exact .inr ⟨stored, rfl, rfl⟩

theorem readSnapshot_ok_iff {repoKey : String} {stored : Stored} {snapshot : Snapshot Extracted} :
    readSnapshot repoKey stored = .ok snapshot ↔
      SnapshotCodec.fromSlice stored = .ok snapshot ∧ snapshot.validate (some repoKey) = .ok () := by
  constructor
  · intro read
    obtain ⟨parsed, decoded, read⟩ := bind_ok read
    obtain ⟨_, valid, read⟩ := bind_ok read
    cases read
    exact ⟨decoded, valid⟩
  · intro given
    obtain ⟨decoded, valid⟩ := given
    rw [readSnapshot, decoded, ok_bind, valid]
    rfl

theorem loadLocal_ok {repoKey : String} {stored : Stored} {snapshot : Snapshot Extracted}
    (read : readSnapshot repoKey stored = .ok snapshot) :
    loadLocal repoKey (some stored) = .ok (some snapshot) := by
  rw [loadLocal, read, ok_bind]

theorem loadLocal_error {repoKey : String} {file : Option Stored}
    (refused : ¬ Accepted Extracted repoKey file) :
    ∃ error, (loadLocal repoKey file : Except Error (Option (Snapshot Extracted))) =
      .error error := by
  cases file with
  | none => exact absurd (fun stored present => by cases present) refused
  | some stored =>
      cases read : (readSnapshot repoKey stored : Except Error (Snapshot Extracted)) with
      | error error => exact ⟨error, by rw [loadLocal, read, error_bind]⟩
      | ok snapshot =>
          refine absurd ?_ refused
          intro other present
          cases present
          exact ⟨snapshot, readSnapshot_ok_iff.mp read⟩

end File

section Cache

variable {Extracted Stored : Type} [HarnessNames] [DocumentCodec] [DocumentReader]
  [Txcript Extracted] [SnapshotCodec Extracted Stored]
  {repoKey : String} {merged : List MergedView} {bodies : Bodies} {file : Option Stored}
  {documents : List (Document Extracted)} {snapshot : Snapshot Extracted} {stored : Stored}

variable (Extracted) in
omit [DocumentCodec] in
/-- Documents of an accepted file whose fingerprint is known are what extraction
of the bodies gives. -/
def FileExtracts (repoKey : String) (merged : List MergedView)
    (bodies : Bodies) (file : Option Stored) : Prop :=
  ∀ stored (snapshot : Snapshot Extracted), file = some stored →
    SnapshotCodec.fromSlice stored = .ok snapshot → snapshot.validate (some repoKey) = .ok () →
    ∀ document ∈ snapshot.documents, document.fingerprint ≠ "" →
      Extracts bodies merged document.key document.fingerprint document.extracted

omit [DocumentCodec] in
theorem priorDocuments_accepted (accepted : Accepted Extracted repoKey file)
    (faithful : FileExtracts Extracted repoKey merged bodies file) :
    ∃ prior : HashMap (DocKey × String) Extracted,
      priorDocuments repoKey file = .ok prior ∧ PriorExtracts bodies merged prior := by
  cases file with
  | none =>
      refine ⟨∅, rfl, ?_⟩
      intro key fingerprint extracted _ found
      cases found
  | some stored =>
      obtain ⟨snapshot, parsed, valid⟩ := accepted stored rfl
      have loaded := loadLocal_ok (readSnapshot_ok_iff.mpr ⟨parsed, valid⟩)
      refine ⟨_, by rw [priorDocuments, loaded, ok_bind], ?_⟩
      intro key fingerprint extracted known found
      rw [HashMap.lookup_collect] at found
      obtain ⟨document, member, shape⟩ := List.mem_map.mp (HashMap.mem_of_lastOf found)
      cases shape
      exact faithful stored snapshot rfl parsed valid document member known

variable (repoKey) in
omit [DocumentReader] in
theorem sealSnapshot_total (consistent : ∀ document ∈ documents,
      Txcript.key document.extracted = document.key) :
    ∃ snapshot : Snapshot Extracted, sealSnapshot repoKey documents = .ok snapshot ∧
      snapshot.repoKey = repoKey ∧ snapshot.documents = sortDocuments documents ∧
      snapshot.validate (some repoKey) = .ok () := by
  obtain ⟨encoded, made⟩ : ∃ encoded, (sortDocuments documents).mapM
      SnapshotCodec.documentBytes = .ok encoded :=
    mapM_total fun document _ => SnapshotCodec.documentBytes_total document
  have hashed : ∃ hash, generation (sortDocuments documents) = .ok hash :=
    ⟨_, by rw [generation, made, ok_bind]⟩
  obtain ⟨hash, hashed⟩ := hashed
  refine ⟨_, by rw [sealSnapshot, hashed, ok_bind], rfl, rfl, Snapshot.validate_ok_iff.mpr ?_⟩
  refine ⟨rfl, rfl, rfl, ?_⟩
  intro document member
  exact consistent document ((List.mem_insertionSort _).mp member)

/-- Every accepted file gives the snapshot of the fresh documents. -/
theorem fromMerged_eq (accepted : Accepted Extracted repoKey file)
    (faithful : FileExtracts Extracted repoKey merged bodies file)
    (fresh : freshDocuments bodies merged = .ok documents)
    (made : sealSnapshot repoKey documents = .ok snapshot)
    (owner : snapshot.repoKey = repoKey) (valid : snapshot.validate (some repoKey) = .ok ())
    (written : SnapshotCodec.toBytes snapshot = .ok stored) :
    fromMerged repoKey merged bodies none file = (.ok snapshot, some stored) := by
  obtain ⟨prior, loaded, kept⟩ := priorDocuments_accepted accepted faithful
  obtain ⟨left, rebuilt⟩ := rebuild_documents (fun _ member => member) kept [] fresh
  have built : buildSnapshot repoKey merged bodies file = .ok snapshot := by
    rw [buildSnapshot, loaded, ok_bind, rebuilt, ok_bind, List.nil_append, made]
  have saved : saveLocal none snapshot file = (.ok (), some stored) := by
    simp only [saveLocal, owner, valid, written]
  simp only [fromMerged, built, saved]

theorem fromMerged_error (refused : ¬ Accepted Extracted repoKey file)
    (diskError : Option Error) :
    ∃ error, (fromMerged repoKey merged bodies diskError file :
      Except Error (Snapshot Extracted) × Option Stored) = (.error error, file) := by
  obtain ⟨error, failed⟩ := loadLocal_error refused
  refine ⟨error, ?_⟩
  have stopped : (buildSnapshot repoKey merged bodies file : Except Error (Snapshot Extracted)) =
      .error error := by
    rw [buildSnapshot, priorDocuments, failed, error_bind, error_bind]
  simp only [fromMerged, stopped]

/-- The rebuild does what it does without a file exactly when there is none or
loading accepts it. -/
theorem fromMerged_cache_iff (loads : Loads bodies merged)
    (faithful : FileExtracts Extracted repoKey merged bodies file) :
    (∃ (snapshot : Snapshot Extracted) (stored : Stored),
      fromMerged repoKey merged bodies none file = (.ok snapshot, some stored) ∧
      fromMerged repoKey merged bodies none none = (.ok snapshot, some stored)) ↔
        Accepted Extracted repoKey file := by
  constructor
  · intro given
    obtain ⟨snapshot, stored, rebuilt, _⟩ := given
    by_contra refused
    obtain ⟨error, failed⟩ :
        ∃ error, fromMerged repoKey merged bodies none file = (.error error, file) :=
      fromMerged_error refused none
    rw [failed] at rebuilt
    cases rebuilt
  · intro accepted
    obtain ⟨documents, fresh⟩ := freshDocuments_total Extracted loads
    obtain ⟨snapshot, made, owner, _, valid⟩ := sealSnapshot_total repoKey
      fun document member => freshDocuments_key fresh member
    obtain ⟨stored, written, _⟩ := SnapshotCodec.fromSlice_toBytes snapshot
    refine ⟨snapshot, stored, fromMerged_eq accepted faithful fresh made owner valid written, ?_⟩
    refine fromMerged_eq ?_ ?_ fresh made owner valid written
    · intro other present
      cases present
    · intro other loaded present
      cases present

end Cache

section Example

attribute [local instance] HarnessNames.snakeCase DocumentCodec.padded DocumentReader.plain
  Txcript.plain SnapshotCodec.plain

def exampleTranscript (rest : String) : Transcript where
  metadata := ⟨"session", 0, none, none, none, none, rest⟩
  body := []

def exampleBodies (rest : String) : Bodies where
  load _ _ := .ok (exampleTranscript rest)
  loadPlaintext _ _ := .error (.msg "no object")

def localView (sessionId fingerprint : String) : MergedView :=
  fromLocal {
    harness := .codex
    sessionId := sessionId
    repoKey := some "repo"
    source := "/a.jsonl"
    fingerprint := fingerprint
    freshness := ⟨some 1, none, 0, "aaa"⟩
    info := ⟨0, none, none, none, none⟩
    ambiguous := false }

theorem exampleBodies_load (sessionId fingerprint rest : String) :
    Loads (exampleBodies rest) [localView sessionId fingerprint] := by
  intro view member _
  cases List.mem_singleton.mp member
  exact ⟨exampleTranscript rest, rfl⟩

/-- The rebuild from bytes that are not a snapshot. -/
theorem fromMerged_cache_iff_junk :
    (∃ (snapshot : Snapshot (DocKey × Transcript)) (stored : _ ⊕ Bytes),
      fromMerged "repo" [localView "session" "1:2"] (exampleBodies "body") none
          (some (.inr [0])) = (.ok snapshot, some stored) ∧
      fromMerged "repo" [localView "session" "1:2"] (exampleBodies "body") none none =
          (.ok snapshot, some stored)) ↔
        Accepted (DocKey × Transcript) "repo" (some (.inr [0])) := by
  apply fromMerged_cache_iff (exampleBodies_load "session" "1:2" "body")
  intro stored snapshot present parsed
  cases present
  cases parsed

/-- Without the file the rebuild succeeds; the unreadable file stops it and stays. -/
theorem fromMerged_stopped_by_cache :
    Loads (exampleBodies "body") [localView "session" "1:2"] ∧
    (∃ (snapshot : Snapshot (DocKey × Transcript)) (stored : _ ⊕ Bytes),
      fromMerged "repo" [localView "session" "1:2"] (exampleBodies "body") none none =
        (.ok snapshot, some stored)) ∧
    (fromMerged "repo" [localView "session" "1:2"] (exampleBodies "body") none
        (some (.inr [0])) : Except Error (Snapshot (DocKey × Transcript)) × _) =
      (.error (.json "expected value at line 1 column 1"), some (.inr [0])) := by
  refine ⟨exampleBodies_load "session" "1:2" "body", ?_, rfl⟩
  obtain ⟨documents, fresh⟩ := freshDocuments_total (DocKey × Transcript)
    (exampleBodies_load "session" "1:2" "body")
  obtain ⟨snapshot, made, owner, _, valid⟩ := sealSnapshot_total "repo"
    fun document member => freshDocuments_key fresh member
  refine ⟨snapshot, .inl snapshot, fromMerged_eq ?_ ?_ fresh made owner valid rfl⟩
  · intro other present
    cases present
  · intro other loaded present
    cases present

end Example

end AgentTranscript
