import AgentTranscript.Search.RuntimeProperties

/-!
A published snapshot on another machine. The writer fingerprints a session by
its source, the reader by the archived body.
-/

set_option autoImplicit false

namespace AgentTranscript

open Loop

section InStep

variable {Extracted : Type} [Txcript Extracted] {runtime : Runtime Extracted}

/-- There is nothing to remove and nothing to re-extract exactly when the
fingerprints held are those wanted. -/
theorem inStep_iff {wanted : HashMap DocKey (String × MergedView)} :
    (runtime.removes wanted = [] ∧ runtime.changes wanted = []) ↔
      ∀ key, runtime.fingerprint key = (wanted.lookup key).map (·.1) := by
  constructor
  · intro given key
    obtain ⟨noRemoves, noChanges⟩ := given
    cases want : wanted.lookup key with
    | none =>
        cases held : runtime.documents.lookup key with
        | none => simp [Runtime.fingerprint, held]
        | some entry =>
            have removed : key ∈ runtime.removes wanted := mem_removes.mpr ⟨by simp [held], want⟩
            rw [noRemoves] at removed
            cases removed
    | some entry =>
        by_contra changed
        have listed : (⟨key, entry.1, entry.2⟩ : Change) ∈ runtime.changes wanted :=
          mem_changes.mpr ⟨want, changed⟩
        rw [noChanges] at listed
        cases listed
  · intro same
    refine ⟨List.eq_nil_iff_forall_not_mem.mpr ?_, List.eq_nil_iff_forall_not_mem.mpr ?_⟩
    · intro key removed
      obtain ⟨held, absent⟩ := mem_removes.mp removed
      have none := same key
      rw [absent] at none
      exact held (Option.map_eq_none_iff.mp none)
    · intro change listed
      obtain ⟨want, changed⟩ := mem_changes.mp listed
      exact changed ((same change.key).trans (by rw [want]; rfl))

end InStep

section Published

variable {Extracted Stored : Type} [HarnessNames] [DocumentCodec] [DocumentReader]
  [Txcript Extracted] [SnapshotCodec Extracted Stored] {repoKey : String}
  {merged : List MergedView} {bodies : Bodies} {file left : Option Stored}
  {snapshot : Snapshot Extracted} {diskError : Option Error}

omit [DocumentCodec] in
theorem rebuildStep_named {state updated : HashMap (DocKey × String) Extracted ×
      List (Document Extracted)} {view : MergedView}
    (stepped : rebuildStep bodies state view = .ok updated) :
    updated.2.map (fun document => (document.key, document.fingerprint)) =
      state.2.map (fun document => (document.key, document.fingerprint)) ++
        if view.pick = .ambiguous then [] else [(view.docKey, fingerprintOf view)] := by
  unfold rebuildStep at stepped
  by_cases tied : view.pick = .ambiguous
  · rw [if_pos tied] at stepped
    cases stepped
    simp [tied]
  · rw [if_neg tied] at stepped
    dsimp only at stepped
    generalize (if (fingerprintOf view).isEmpty = true then (none, state.1)
      else state.1.extract (view.docKey, fingerprintOf view)) = chosen at stepped
    obtain ⟨reused, prior⟩ := chosen
    cases reused with
    | some extracted =>
        cases stepped
        simp [tied]
    | none =>
        obtain ⟨body, _, stepped⟩ := bind_ok stepped
        cases stepped
        simp [tied]

/-- Whatever was reused, the documents of a rebuild carry the keys and the
fingerprints of the merged views. -/
theorem buildSnapshot_named (built : buildSnapshot repoKey merged bodies file = .ok snapshot) :
    ∃ documents : List (Document Extracted), snapshot.documents = sortDocuments documents ∧
      documents.map (fun document => (document.key, document.fingerprint)) =
        (merged.filter fun view => view.pick ≠ .ambiguous).map fun view =>
          (view.docKey, fingerprintOf view) := by
  obtain ⟨prior, _, built⟩ := bind_ok built
  obtain ⟨final, finished, made⟩ := bind_ok built
  obtain ⟨hash, _, made⟩ := bind_ok made
  cases made
  refine ⟨final.2, rfl, ?_⟩
  refine foldlM_ok_invariant finished (fun seen state =>
    state.2.map (fun document => (document.key, document.fingerprint)) =
      (seen.filter fun view => view.pick ≠ .ambiguous).map fun view =>
        (view.docKey, fingerprintOf view)) rfl ?_
  intro seen view state updated _ holds stepped
  rw [rebuildStep_named stepped, holds, List.filter_append, List.map_append]
  by_cases tied : view.pick = .ambiguous <;> simp [tied]

theorem fromMerged_ok (ended : fromMerged repoKey merged bodies diskError file =
      (.ok snapshot, left)) :
    buildSnapshot repoKey merged bodies file = .ok snapshot := by
  unfold fromMerged at ended
  cases built : (buildSnapshot repoKey merged bodies file : Except Error (Snapshot Extracted)) with
  | error error =>
      rw [built] at ended
      cases ended
  | ok other =>
      rw [built] at ended
      rcases saveLocal_cases other diskError file with unsaved | written
      · obtain ⟨error, shape⟩ := unsaved
        simp only [shape] at ended
        cases ended
      · obtain ⟨stored, _, shape⟩ := written
        simp only [shape] at ended
        cases ended
        rfl

theorem rebuilt_fingerprint (built : buildSnapshot repoKey merged bodies file = .ok snapshot)
    (key : DocKey) :
    snapshot.intoRuntime.fingerprint key = ((wantedOf merged).lookup key).map (·.1) := by
  obtain ⟨documents, sorted, named⟩ := buildSnapshot_named built
  have held : HashMap.lastOf (documents.map fun document =>
      (document.key, document.fingerprint)) key = snapshot.intoRuntime.fingerprint key := by
    rw [Runtime.fingerprint, intoRuntime_lookup sorted, ← HashMap.lastOf_map, List.map_map]
    rfl
  rw [← held, named, wantedOf, HashMap.lookup_collect, ← HashMap.lastOf_map, List.map_map]
  rfl

end Published

section Sides

variable {repoKey : String} {records : List SourceRecord} {remotes : List RemoteView}

/-- Every local body of the repository is the current revision of its session,
and copies that tie are revisions that tie. -/
def Ingested (repoKey : String) (records : List SourceRecord) (remotes : List RemoteView) : Prop :=
  ∀ view ∈ localViews records, view.repoKey = some repoKey →
    ∃ remote ∈ remotes, isTwin repoKey view remote = true ∧ remote.ambiguous = view.ambiguous ∧
      (view.ambiguous = false → remote.freshness.contentHash = view.freshness.contentHash)

/-- Sources that win over their archived revision are fingerprinted as it is. -/
def NamedByBody (repoKey : String) (records : List SourceRecord) (remotes : List RemoteView) : Prop :=
  ∀ view ∈ localViews records, view.repoKey = some repoKey → view.ambiguous = false →
    ∀ remote ∈ remotes, isTwin repoKey view remote = true →
      prefer view.freshness remote.freshness = .local →
        view.fingerprint = remote.freshness.contentHash

/-- Two sides that show one body never disagree: the pair is ambiguous exactly
when both sides are, and its pick is the preferred one. -/
theorem mergePair_sameBody {view : LocalView} {remote : RemoteView}
    (tied : remote.ambiguous = view.ambiguous)
    (sameBody : view.ambiguous = false →
      remote.freshness.contentHash = view.freshness.contentHash) :
    (view.ambiguous = true ∧ mergePair view remote = ambiguousLocal view) ∨
    (view.ambiguous = false ∧ prefer view.freshness remote.freshness = .local ∧
      mergePair view remote = fromLocal view) ∨
    (view.ambiguous = false ∧ prefer view.freshness remote.freshness ≠ .local ∧
      mergePair view remote = fromRemoteWithLocal remote view) := by
  cases several : view.ambiguous with
  | true =>
      refine .inl ⟨rfl, ?_⟩
      unfold mergePair
      rw [tied, several]
      cases rank view.freshness remote.freshness <;> simp
  | false =>
      have same := sameBody several
      rw [several] at tied
      refine .inr ?_
      simp only [mergePair, tied, several, Bool.false_and, Bool.false_eq_true, if_false]
      rw [prefer_eq]
      by_cases newer : remote.freshness.rankKey < view.freshness.rankKey
      · simp [newer]
      · by_cases older : view.freshness.rankKey < remote.freshness.rankKey
        · simp [newer, older]
        · simp [newer, older, same]

/-- The writer's copy of an archived session. -/
def copyOf (repoKey : String) (locals : List LocalView) (remote : RemoteView) : Option LocalView :=
  locals.find? fun view => view.repoKey = some repoKey && isTwin repoKey view remote

/-- The row a listing has for an archived session. -/
def archivedRow (repoKey : String) (locals : List LocalView) (remote : RemoteView) : MergedView :=
  match copyOf repoKey locals remote with
  | some view => mergePair view remote
  | none => fromRemote remote

theorem copyOf_some {view : LocalView} {remote : RemoteView}
    (found : copyOf repoKey (localViews records) remote = some view) :
    view ∈ localViews records ∧ view.repoKey = some repoKey ∧
      isTwin repoKey view remote = true := by
  have passes := List.find?_some found
  rw [Bool.and_eq_true, decide_eq_true_iff] at passes
  exact ⟨List.mem_of_find?_eq_some found, passes.1, passes.2⟩

theorem copyOf_eq_some {view : LocalView} {remote : RemoteView}
    (member : view ∈ localViews records) (ours : view.repoKey = some repoKey)
    (twin : isTwin repoKey view remote = true) :
    copyOf repoKey (localViews records) remote = some view := by
  cases found : copyOf repoKey (localViews records) remote with
  | none =>
      have missed := List.find?_eq_none.mp found view member
      simp [ours, twin] at missed
  | some other =>
      obtain ⟨otherIn, otherRepo, otherTwin⟩ := copyOf_some found
      have keys := Prod.mk.inj ((isTwin_iff.mp otherTwin).1.symm.trans (isTwin_iff.mp twin).1)
      rw [localView_unique otherIn member (by rw [keys.1, keys.2, otherRepo, ours])]

theorem archivedRow_docKey (locals : List LocalView) (remote : RemoteView) :
    (archivedRow repoKey locals remote).docKey = (fromRemote remote).docKey := by
  unfold archivedRow
  cases found : copyOf repoKey locals remote with
  | none => rfl
  | some view =>
      have passes := List.find?_some found
      rw [Bool.and_eq_true] at passes
      have same := (isTwin_iff.mp passes.2).1
      exact docKey_inj.mpr ((mergePair_key view remote same).trans same.symm)

theorem Ingested.twin (ingested : Ingested repoKey records remotes)
    (unique : (remotes.map RemoteView.key).Nodup) {view : LocalView} {remote : RemoteView}
    (remoteIn : remote ∈ remotes)
    (found : copyOf repoKey (localViews records) remote = some view) :
    remote.ambiguous = view.ambiguous ∧ (view.ambiguous = false →
      remote.freshness.contentHash = view.freshness.contentHash) := by
  obtain ⟨member, ours, twin⟩ := copyOf_some found
  obtain ⟨other, otherIn, otherTwin, agrees⟩ := ingested view member ours
  have same : other = remote := List.inj_on_of_nodup_map unique otherIn remoteIn
    ((isTwin_iff.mp otherTwin).1.trans (isTwin_iff.mp twin).1.symm)
  exact same ▸ agrees

theorem archivedRow_ambiguous (ingested : Ingested repoKey records remotes)
    (unique : (remotes.map RemoteView.key).Nodup) {remote : RemoteView}
    (remoteIn : remote ∈ remotes) :
    (archivedRow repoKey (localViews records) remote).pick = .ambiguous ↔
      remote.ambiguous = true := by
  unfold archivedRow
  cases found : copyOf repoKey (localViews records) remote with
  | none => cases tied : remote.ambiguous <;> simp [fromRemote, tied]
  | some view =>
      obtain ⟨tied, sameBody⟩ := ingested.twin unique remoteIn found
      rcases mergePair_sameBody tied sameBody with both | wins | loses
      · simp [both, tied, ambiguousLocal]
      · simp [wins, tied, fromLocal]
      · simp [loses, tied, fromRemoteWithLocal, fromRemote]

/-- A settled session is known by its source where the copy wins, and by the
hash of its revision elsewhere. -/
theorem archivedRow_fingerprint (ingested : Ingested repoKey records remotes)
    (unique : (remotes.map RemoteView.key).Nodup) {remote : RemoteView}
    (remoteIn : remote ∈ remotes) (settled : remote.ambiguous = false) :
    fingerprintOf (archivedRow repoKey (localViews records) remote) =
        remote.freshness.contentHash ↔
      ∀ view, copyOf repoKey (localViews records) remote = some view →
        prefer view.freshness remote.freshness = .local →
          view.fingerprint = remote.freshness.contentHash := by
  unfold archivedRow
  cases found : copyOf repoKey (localViews records) remote with
  | none => simp [fingerprintOf, fromRemote, settled]
  | some view =>
      obtain ⟨tied, sameBody⟩ := ingested.twin unique remoteIn found
      rcases mergePair_sameBody tied sameBody with both | wins | loses
      · simp [both.1, settled] at tied
      · simp [wins, fingerprintOf, fromLocal]
      · simp [loses, fingerprintOf, fromRemoteWithLocal, fromRemote, settled]

end Sides

section Listed

variable [HarnessNames] {repoKey : String} {records others : List SourceRecord}
  {remotes : List RemoteView}

/-- Where every copy is archived, a listing has a row for each archived session
and no others. -/
theorem mem_listed (unique : (remotes.map RemoteView.key).Nodup)
    (ingested : Ingested repoKey records remotes) {merged : MergedView} :
    merged ∈ select repoKey none (localViews records) remotes ↔ ∃ remote ∈ remotes,
      remote.repoKey = repoKey ∧ archivedRow repoKey (localViews records) remote = merged := by
  have viewScoped : ∀ {view : LocalView}, view ∈ localsInScope repoKey none (localViews records) ↔
      view ∈ localViews records ∧ view.repoKey = some repoKey := by
    intro view
    simp [mem_localsInScope]
  have remoteScoped : ∀ {remote : RemoteView}, remote ∈ remotesInScope repoKey none remotes ↔
      remote ∈ remotes ∧ remote.repoKey = repoKey := by
    intro remote
    simp [mem_remotesInScope]
  have rows : (select repoKey none (localViews records) remotes).Perm _ :=
    select_perm_rows (remotesInScope_nodup unique)
  rw [rows.mem_iff, sessionJoin.mem_rows (remotesInScope_nodup unique)]
  constructor
  · intro row
    rcases row with paired | lone | lone
    · obtain ⟨view, viewIn, remote, remoteIn, same, rfl⟩ := paired
      obtain ⟨present, ours⟩ := remoteScoped.mp remoteIn
      obtain ⟨viewMember, viewRepo⟩ := viewScoped.mp viewIn
      refine ⟨remote, present, ours, ?_⟩
      rw [archivedRow, copyOf_eq_some viewMember viewRepo (isTwin_iff.mpr ⟨same, ours⟩)]
      rfl
    · obtain ⟨view, viewIn, apart, rfl⟩ := lone
      obtain ⟨viewMember, viewRepo⟩ := viewScoped.mp viewIn
      obtain ⟨remote, present, twin, _⟩ := ingested view viewMember viewRepo
      obtain ⟨sameKey, ours⟩ := isTwin_iff.mp twin
      exact absurd sameKey (apart remote (remoteScoped.mpr ⟨present, ours⟩))
    · obtain ⟨remote, remoteIn, apart, rfl⟩ := lone
      obtain ⟨present, ours⟩ := remoteScoped.mp remoteIn
      refine ⟨remote, present, ours, ?_⟩
      unfold archivedRow
      cases found : copyOf repoKey (localViews records) remote with
      | none => rfl
      | some view =>
          obtain ⟨viewMember, viewRepo, twin⟩ := copyOf_some found
          exact absurd (isTwin_iff.mp twin).1.symm
            (apart view (viewScoped.mpr ⟨viewMember, viewRepo⟩))
  · intro given
    obtain ⟨remote, present, ours, rfl⟩ := given
    have remoteIn := remoteScoped.mpr ⟨present, ours⟩
    unfold archivedRow
    cases found : copyOf repoKey (localViews records) remote with
    | some view =>
        obtain ⟨viewMember, viewRepo, twin⟩ := copyOf_some found
        exact .inl ⟨view, viewScoped.mpr ⟨viewMember, viewRepo⟩, remote, remoteIn,
          (isTwin_iff.mp twin).1, rfl⟩
    | none =>
        refine .inr (.inr ⟨remote, remoteIn, ?_, rfl⟩)
        intro view viewIn same
        obtain ⟨viewMember, viewRepo⟩ := viewScoped.mp viewIn
        have copied := copyOf_eq_some viewMember viewRepo (isTwin_iff.mpr ⟨same.symm, ours⟩)
        rw [found] at copied
        cases copied

theorem listed_fingerprint (unique : (remotes.map RemoteView.key).Nodup)
    (ingested : Ingested repoKey records remotes) {key : DocKey} {fingerprint : String} :
    ((wantedOf (select repoKey none (localViews records) remotes)).lookup key).map (·.1) =
        some fingerprint ↔
      ∃ remote ∈ remotes, remote.repoKey = repoKey ∧ remote.ambiguous = false ∧
        (fromRemote remote).docKey = key ∧
        fingerprintOf (archivedRow repoKey (localViews records) remote) = fingerprint := by
  have once : ((select repoKey none (localViews records) remotes).map MergedView.key).Nodup :=
    (selection_of_scope (localsInScope_nodup (localViews_nodup records))
      (remotesInScope_nodup unique)).once
  rw [Option.map_eq_some_iff]
  constructor
  · intro given
    obtain ⟨⟨_, merged⟩, want, rfl⟩ := given
    obtain ⟨member, picked, rfl, rfl⟩ := (wantedOf_eq_some_iff once).mp want
    obtain ⟨remote, remoteIn, ours, rfl⟩ := (mem_listed unique ingested).mp member
    refine ⟨remote, remoteIn, ours, ?_, (archivedRow_docKey _ remote).symm, rfl⟩
    exact Bool.eq_false_iff.mpr fun tied =>
      picked ((archivedRow_ambiguous ingested unique remoteIn).mpr tied)
  · intro given
    obtain ⟨remote, remoteIn, ours, settled, rfl, rfl⟩ := given
    refine ⟨(_, archivedRow repoKey (localViews records) remote),
      (wantedOf_eq_some_iff once).mpr ⟨?_, ?_, archivedRow_docKey _ remote, rfl⟩, rfl⟩
    · exact (mem_listed unique ingested).mpr ⟨remote, remoteIn, ours, rfl⟩
    · intro tied
      rw [archivedRow_ambiguous ingested unique remoteIn, settled] at tied
      cases tied

omit [HarnessNames] in
/-- A machine without copies of its own has ingested all of them. -/
theorem noCopies_spec (noCopies : ∀ record ∈ others, record.repoKey ≠ some repoKey) :
    ∀ view ∈ localViews others, view.repoKey ≠ some repoKey := by
  intro view member ours
  obtain ⟨key, chosen⟩ := mem_localViews.mp member
  have present : copiesOf others key ≠ [] := by
    intro empty
    rw [empty] at chosen
    cases chosen
  obtain ⟨record, found⟩ := List.exists_mem_of_ne_nil _ present
  obtain ⟨recordIn, _, ofKey⟩ := mem_copiesOf.mp found
  have ofView := (chooseLocal_side (fun record present => (mem_copiesOf.mp present).2.2) chosen).1
  have sameRepo : record.repoKey = view.repoKey :=
    congrArg (fun key : GroupKey => key.2.2) (ofKey.trans ofView.symm)
  exact noCopies record recordIn (sameRepo.trans ours)

/-- Both machines want the same fingerprints exactly when the writer's winning
sources are fingerprinted by their bodies. -/
theorem sameWanted_iff (unique : (remotes.map RemoteView.key).Nodup)
    (ingested : Ingested repoKey records remotes)
    (noCopies : ∀ record ∈ others, record.repoKey ≠ some repoKey) :
    (∀ key, ((wantedOf (select repoKey none (localViews records) remotes)).lookup key).map (·.1) =
        ((wantedOf (select repoKey none (localViews others) remotes)).lookup key).map (·.1)) ↔
      NamedByBody repoKey records remotes := by
  have absent := noCopies_spec noCopies
  have theirs : Ingested repoKey others remotes := fun view member ours =>
    absurd ours (absent view member)
  have byHash : ∀ remote ∈ remotes, remote.ambiguous = false →
      fingerprintOf (archivedRow repoKey (localViews others) remote) =
        remote.freshness.contentHash := by
    intro remote remoteIn settled
    apply (archivedRow_fingerprint theirs unique remoteIn settled).mpr
    intro view found
    obtain ⟨member, ours, _⟩ := copyOf_some found
    exact absurd ours (absent view member)
  constructor
  · intro same view member ours settled remote remoteIn twin preferred
    have found := copyOf_eq_some member ours twin
    have clear : remote.ambiguous = false :=
      (ingested.twin unique remoteIn found).1.trans settled
    have held := (listed_fingerprint unique ingested).mpr
      ⟨remote, remoteIn, (isTwin_iff.mp twin).2, clear, rfl, rfl⟩
    rw [same] at held
    obtain ⟨other, otherIn, _, otherClear, sameKey, shown⟩ :=
      (listed_fingerprint unique theirs).mp held
    have sameRemote : other = remote :=
      List.inj_on_of_nodup_map unique otherIn remoteIn (docKey_inj.mp sameKey)
    subst sameRemote
    rw [byHash other otherIn otherClear] at shown
    exact (archivedRow_fingerprint ingested unique otherIn clear).mp shown.symm view found preferred
  · intro named key
    apply Option.ext
    intro fingerprint
    have agree : ∀ remote ∈ remotes, remote.ambiguous = false →
        fingerprintOf (archivedRow repoKey (localViews records) remote) =
          fingerprintOf (archivedRow repoKey (localViews others) remote) := by
      intro remote remoteIn settled
      rw [byHash remote remoteIn settled]
      apply (archivedRow_fingerprint ingested unique remoteIn settled).mpr
      intro view found preferred
      obtain ⟨member, ours, twin⟩ := copyOf_some found
      have clear : view.ambiguous = false :=
        (ingested.twin unique remoteIn found).1.symm.trans settled
      exact named view member ours clear remote remoteIn twin preferred
    rw [listed_fingerprint unique ingested, listed_fingerprint unique theirs]
    constructor
    · intro given
      obtain ⟨remote, remoteIn, ours, settled, sameKey, shown⟩ := given
      exact ⟨remote, remoteIn, ours, settled, sameKey, agree remote remoteIn settled ▸ shown⟩
    · intro given
      obtain ⟨remote, remoteIn, ours, settled, sameKey, shown⟩ := given
      exact ⟨remote, remoteIn, ours, settled, sameKey,
        (agree remote remoteIn settled).trans shown⟩

end Listed

section Handover

variable {Extracted Stored : Type} [HarnessNames] [DocumentCodec] [DocumentReader]
  [Txcript Extracted] [SnapshotCodec Extracted Stored] {repoKey : String}
  {records others : List SourceRecord} {catalog : Catalog} {remotes : List RemoteView}
  {theirs : List MergedView} {bodies : Bodies} {diskError : Option Error}
  {file saved left : Option Stored} {plain : Stored} {snapshot : Snapshot Extracted}
  {runtime : Runtime Extracted}

theorem published_cases
    (published : buildForRepo repoKey records catalog bodies true diskError file =
      (.ok snapshot, saved, some plain)) :
    ∃ views, merged repoKey none (localViews records) catalog = .ok views ∧
      buildSnapshot repoKey views bodies file = .ok snapshot ∧
      snapshot.validate (some repoKey) = .ok () ∧ SnapshotCodec.toBytes snapshot = .ok plain := by
  unfold buildForRepo at published
  cases made : merged repoKey none (localViews records) catalog with
  | error error =>
      rw [made] at published
      cases published
  | ok views =>
      rw [made] at published
      dsimp only at published
      cases ended : (fromMerged repoKey views bodies diskError file :
          Except Error (Snapshot Extracted) × Option Stored) with
      | mk outcome kept =>
          rw [ended] at published
          cases outcome with
          | error error => cases published
          | ok built =>
              have rebuilt := fromMerged_ok ended
              have owner : built.repoKey = repoKey := by
                obtain ⟨_, _, rest⟩ := bind_ok rebuilt
                obtain ⟨_, _, made⟩ := bind_ok rest
                obtain ⟨_, _, made⟩ := bind_ok made
                cases made
                rfl
              simp only [if_true] at published
              cases valid : built.validate (some built.repoKey) with
              | error error =>
                  rw [valid] at published
                  cases published
              | ok _ =>
                  cases written : SnapshotCodec.toBytes built with
                  | error error =>
                      rw [valid, written] at published
                      cases published
                  | ok stored =>
                      rw [valid, written] at published
                      cases published
                      exact ⟨views, rfl, rebuilt, owner ▸ valid, written⟩

omit [HarnessNames] [DocumentCodec] [DocumentReader] in
/-- Without a local snapshot a server starts from the published one. -/
theorem runtimeFor_published (valid : snapshot.validate (some repoKey) = .ok ())
    (written : SnapshotCodec.toBytes snapshot = .ok plain) :
    runtimeFor repoKey (.ok (some plain)) none none = (.ok snapshot.intoRuntime, some plain) := by
  obtain ⟨stored, same, parsed⟩ := SnapshotCodec.fromSlice_toBytes snapshot
  rw [written] at same
  cases same
  have read : readSnapshot repoKey plain = .ok snapshot := readSnapshot_ok_iff.mpr ⟨parsed, valid⟩
  have owner : snapshot.repoKey = repoKey := (Snapshot.validate_ok_iff.mp valid).2.2.1
  have kept : saveLocal none snapshot none = (.ok (), some plain) := by
    simp only [saveLocal, owner, valid, written]
  simp only [runtimeFor, loadLocal, loadRemote, read, kept]

/-- The first sync of a reader has nothing to fetch exactly when the writer's
winning sources are fingerprinted by their bodies. -/
theorem handover_iff (unique : (catalog.sessions.map (·.key)).Nodup)
    (archived : remoteViews catalog = .ok remotes)
    (ingested : Ingested repoKey records remotes)
    (noCopies : ∀ record ∈ others, record.repoKey ≠ some repoKey)
    (published : buildForRepo repoKey records catalog bodies true diskError file =
      (.ok snapshot, saved, some plain))
    (started : runtimeFor repoKey (.ok (some plain)) none none = (.ok runtime, left))
    (listed : merged repoKey none (localViews others) catalog = .ok theirs) :
    (runtime.removes (wantedOf theirs) = [] ∧ runtime.changes (wantedOf theirs) = []) ↔
      NamedByBody repoKey records remotes := by
  obtain ⟨mine, made, built, valid, written⟩ := published_cases published
  rw [merged, archived, ok_bind] at made listed
  cases made
  cases listed
  rw [runtimeFor_published valid written] at started
  cases started
  rw [inStep_iff, ← sameWanted_iff (remoteViews_reflects unique archived).unique ingested noCopies]
  simp only [rebuilt_fingerprint built]

end Handover

section Example

attribute [local instance] HarnessNames.snakeCase DocumentCodec.padded DocumentReader.plain
  Txcript.plain SnapshotCodec.plain

def archivedCatalog : Catalog :=
  Catalog.piece "repo" .codex "session" (.bare "aaa" 1)

def archivedRemote : RemoteView where
  harness := .codex
  sessionId := "session"
  repoKey := "repo"
  freshness := ⟨some 1, none, 0, "aaa"⟩
  objectKey := (Revision.bare "aaa" 1).objectKey
  info := (Revision.bare "aaa" 1).info
  ambiguous := false

theorem archived_ingested :
    Ingested "repo" [readyRecord "/a.jsonl" "aaa" 1] [archivedRemote] := by
  intro view member ours
  cases List.mem_singleton.mp member
  exact ⟨archivedRemote, List.mem_singleton.mpr rfl, rfl, rfl, fun _ => rfl⟩

theorem archived_published : ∃ (snapshot : Snapshot (DocKey × Transcript))
    (saved : Option (_ ⊕ Bytes)) (plain : _ ⊕ Bytes),
    buildForRepo "repo" [readyRecord "/a.jsonl" "aaa" 1] archivedCatalog (exampleBodies "body")
      true none none = (.ok snapshot, saved, some plain) :=
  ⟨_, _, _, rfl⟩

/-- The bodies of a machine that has no sources of its own. -/
def archiveBodies : Bodies where
  load _ _ := .error (.transient "no source")
  loadPlaintext _ _ := .ok ("session".toList.map fun char => UInt8.ofNat char.toNat)

theorem archivedOnly_published : ∃ (snapshot : Snapshot (DocKey × Transcript))
    (saved : Option (_ ⊕ Bytes)) (plain : _ ⊕ Bytes),
    buildForRepo "repo" [] archivedCatalog archiveBodies true none none =
      (.ok snapshot, saved, some plain) :=
  ⟨_, _, _, rfl⟩

/-- A writer and a reader that both have the session from the archive only. -/
theorem handover_iff_archived :
    ∃ (snapshot : Snapshot (DocKey × Transcript)) (saved left : Option (_ ⊕ Bytes))
      (plain : _ ⊕ Bytes) (runtime : Runtime (DocKey × Transcript)),
      buildForRepo "repo" [] archivedCatalog archiveBodies true none none =
        (.ok snapshot, saved, some plain) ∧
      runtimeFor "repo" (.ok (some plain)) none none = (.ok runtime, left) ∧
      runtime.removes (wantedOf [fromRemote archivedRemote]) = [] ∧
      runtime.changes (wantedOf [fromRemote archivedRemote]) = [] := by
  obtain ⟨snapshot, saved, plain, published⟩ := archivedOnly_published
  obtain ⟨_, _, _, valid, written⟩ := published_cases published
  have started := runtimeFor_published valid written
  have listed : merged "repo" none (localViews []) archivedCatalog =
      .ok [fromRemote archivedRemote] := rfl
  have ingested : Ingested "repo" [] [archivedRemote] := fun view member => by cases member
  have noCopies : ∀ record ∈ ([] : List SourceRecord), record.repoKey ≠ some "repo" := by simp
  have named : NamedByBody "repo" [] [archivedRemote] := fun view member => by cases member
  have inStep := (handover_iff (by decide : (archivedCatalog.sessions.map (·.key)).Nodup) rfl
    ingested noCopies published started listed).mpr named
  exact ⟨snapshot, saved, some plain, plain, snapshot.intoRuntime, published, started,
    inStep.1, inStep.2⟩

/-- The reader is handed the session under the fingerprint of a file it does not
have, and wants it under its hash. -/
theorem handover_fetches :
    (archivedCatalog.sessions.map (·.key)).Nodup ∧
    remoteViews archivedCatalog = .ok [archivedRemote] ∧
    Ingested "repo" [readyRecord "/a.jsonl" "aaa" 1] [archivedRemote] ∧
    merged "repo" none (localViews []) archivedCatalog = .ok [fromRemote archivedRemote] ∧
    ∃ (snapshot : Snapshot (DocKey × Transcript)) (saved left : Option (_ ⊕ Bytes))
      (plain : _ ⊕ Bytes) (runtime : Runtime (DocKey × Transcript)),
      buildForRepo "repo" [readyRecord "/a.jsonl" "aaa" 1] archivedCatalog (exampleBodies "body")
        true none none = (.ok snapshot, saved, some plain) ∧
      runtimeFor "repo" (.ok (some plain)) none none = (.ok runtime, left) ∧
      ¬ (runtime.removes (wantedOf [fromRemote archivedRemote]) = [] ∧
        runtime.changes (wantedOf [fromRemote archivedRemote]) = []) := by
  obtain ⟨snapshot, saved, plain, published⟩ := archived_published
  obtain ⟨mine, made, built, valid, written⟩ := published_cases published
  refine ⟨by decide, rfl, archived_ingested, rfl, snapshot, saved, some plain, plain,
    snapshot.intoRuntime, published, runtimeFor_published valid written, ?_⟩
  intro inStep
  have same := inStep_iff.mp inStep ⟨.codex, "session", none⟩
  rw [rebuilt_fingerprint built] at same
  cases made
  exact absurd same (by decide)

end Example

end AgentTranscript
