import AgentTranscript.Library.Delimited
import AgentTranscript.Library.Ranking
import AgentTranscript.Library.Transition
import AgentTranscript.Search.RuntimeProperties

/-!
Runs of a runtime that is the only writer of its snapshot: the query index, the document map
and the file stay in step, and the snapshot and its generation are those of the map.
-/

set_option autoImplicit false

namespace AgentTranscript

open Loop

section Definitions

variable {Extracted Stored : Type} [HarnessNames] [DocumentCodec] [Txcript Extracted]
  [SnapshotCodec Extracted Stored]

/-- What the index of txcript holds: a document replaces the one of its key, and a removed key
has none. -/
structure IndexLaws (held : Txcript.Index Extracted → DocKey → Option Extracted) : Prop where
  created : ∀ key, held Txcript.newIndex key = none
  inserted : ∀ index extracted key, held (Txcript.insertExtracted index extracted) key =
    if key = Txcript.key extracted then some extracted else held index key
  removed : ∀ index gone key,
    held (Txcript.removeKey index gone) key = if key = gone then none else held index key

inductive RuntimeCall (Extracted : Type) where
  | upsert (fingerprint : String) (extracted : Extracted)
  | remove (key : DocKey)
  | persist

/-- A call on the runtime, with the local file. Saves succeed, and a document is put under its
own key. -/
def runtimeStep (state : Runtime Extracted × Option Stored) :
    RuntimeCall Extracted → Option (Runtime Extracted × Option Stored)
  | .upsert fingerprint extracted =>
      some (state.1.upsert (Txcript.key extracted) fingerprint extracted, state.2)
  | .remove key => some (state.1.remove key, state.2)
  | .persist => some (state.1.persist none state.2).2

omit [HarnessNames] [DocumentCodec] in
/-- An empty runtime without a file, or the runtime of the file. -/
inductive RuntimeStart (repoKey : String) : Runtime Extracted × Option Stored → Prop where
  | empty : RuntimeStart repoKey (.empty repoKey, none)
  | loaded (file : Option Stored) (snapshot : Snapshot Extracted) :
      loadLocal repoKey file = .ok (some snapshot) →
      RuntimeStart repoKey (snapshot.intoRuntime, file)

def RuntimeReached (repoKey : String) (state : Runtime Extracted × Option Stored) : Prop :=
  ∃ start, RuntimeStart repoKey start ∧
    Transition.Run runtimeStep (fun _ _ => True) start state

omit [HarnessNames] [DocumentCodec] in
def SameDocuments (left right : Runtime Extracted) : Prop :=
  ∀ key, left.documents.lookup key = right.documents.lookup key

omit [HarnessNames] [DocumentCodec] in
/-- Loading the file gives the documents of the runtime, or there is no file and the runtime
has none. -/
def SavedAs (repoKey : String) (state : Runtime Extracted × Option Stored) : Prop :=
  (state.2 = none ∧ ∀ key, state.1.documents.lookup key = none) ∨
    ∃ snapshot : Snapshot Extracted, loadLocal repoKey state.2 = .ok (some snapshot) ∧
      SameDocuments snapshot.intoRuntime state.1

omit [HarnessNames] [DocumentCodec] in
/-- The index holds the documents of the map, each under its own key. -/
structure Mirrors (held : Txcript.Index Extracted → DocKey → Option Extracted)
    (index : Txcript.Index Extracted) (documents : HashMap DocKey (DocEntry Extracted)) :
    Prop where
  values : ∀ key, (held index key).map valueOf = (documents.lookup key).map (·.extracted)
  keyed : ∀ key extracted, held index key = some extracted → Txcript.key extracted = key

omit [HarnessNames] [DocumentCodec] in
/-- What holds between two calls. -/
structure InStep (held : Txcript.Index Extracted → DocKey → Option Extracted) (repoKey : String)
    (state : Runtime Extracted × Option Stored) : Prop where
  owner : state.1.repoKey = repoKey
  mirrors : Mirrors held state.1.index state.1.documents
  saved : state.1.dirty = false → SavedAs repoKey state

end Definitions

theorem leBytes_inj {count other : Nat} (short : count < 2 ^ 64) (small : other < 2 ^ 64)
    (same : leBytes count = leBytes other) : count = other := by
  have digits : ∀ place < 8, count / 256 ^ place % 256 = other / 256 ^ place % 256 := by
    intro place below
    have byte := List.map_inj_left.mp same place (List.mem_range.mpr below)
    simpa using congrArg UInt8.toNat byte
  have first := digits 0
  have second := digits 1
  have third := digits 2
  have fourth := digits 3
  have fifth := digits 4
  have sixth := digits 5
  have seventh := digits 6
  have eighth := digits 7
  norm_num at *
  omega

section Values

variable {Extracted : Type} [Txcript Extracted]

theorem fromValue_valueOf (extracted : Extracted) :
    Txcript.fromValue (valueOf extracted) = .ok extracted := by
  obtain ⟨value, made, read⟩ := Txcript.fromValue_toValue extracted
  rw [valueOf, made]
  exact read

theorem valueOf_injective : Function.Injective (valueOf : Extracted → Txcript.Value Extracted) := by
  intro left right same
  have read := fromValue_valueOf left
  rw [same, fromValue_valueOf] at read
  exact (Except.ok.inj read).symm

theorem savedDocument_of (key : DocKey) (fingerprint : String) (extracted : Extracted) :
    savedDocument key (.of fingerprint extracted) = .ok ⟨key, fingerprint, extracted⟩ := by
  rw [savedDocument, DocEntry.of, fromValue_valueOf, ok_bind]

theorem Document.entry_inj {left right : Document Extracted} (keys : left.key = right.key)
    (entries : left.entry = right.entry) : left = right := by
  obtain ⟨key, fingerprint, extracted⟩ := left
  obtain ⟨other, mark, body⟩ := right
  cases keys
  have marks := congrArg DocEntry.fingerprint entries
  have bodies := valueOf_injective (congrArg DocEntry.extracted entries)
  cases marks
  cases bodies
  rfl

end Values

section Index

variable {Extracted : Type} [Txcript Extracted]
  {held : Txcript.Index Extracted → DocKey → Option Extracted}
  {index : Txcript.Index Extracted} {documents : HashMap DocKey (DocEntry Extracted)}

theorem Mirrors.created (laws : IndexLaws held) : Mirrors held Txcript.newIndex ∅ := by
  refine ⟨?_, ?_⟩
  · intro key
    rw [laws.created, AList.lookup_empty]
    rfl
  · intro key extracted found
    rw [laws.created] at found
    cases found

theorem Mirrors.insert (laws : IndexLaws held) (mirrors : Mirrors held index documents)
    (fingerprint : String) (extracted : Extracted) :
    Mirrors held (Txcript.insertExtracted index extracted)
      (documents.insert (Txcript.key extracted) (.of fingerprint extracted)) := by
  refine ⟨?_, ?_⟩
  · intro key
    rw [laws.inserted, HashMap.lookup_insert_eq]
    split
    · rfl
    · exact mirrors.values key
  · intro key other found
    rw [laws.inserted] at found
    split at found
    · rename_i own
      cases found
      exact own.symm
    · exact mirrors.keyed key other found

theorem Mirrors.erase (laws : IndexLaws held) (mirrors : Mirrors held index documents)
    (gone : DocKey) : Mirrors held (Txcript.removeKey index gone) (documents.erase gone) := by
  refine ⟨?_, ?_⟩
  · intro key
    rw [laws.removed, HashMap.lookup_erase_eq]
    split
    · rfl
    · exact mirrors.values key
  · intro key other found
    rw [laws.removed] at found
    split at found
    · cases found
    · exact mirrors.keyed key other found

/-- The loop that builds the index of a snapshot whose documents are under their own keys. -/
theorem Mirrors.insertAll (laws : IndexLaws held) (list : List (Document Extracted))
    (keyed : ∀ document ∈ list, Txcript.key document.extracted = document.key)
    (mirrors : Mirrors held index documents) :
    Mirrors held
      (list.foldl (fun index document => Txcript.insertExtracted index document.extracted) index)
      (HashMap.insertAll documents (list.map fun document => (document.key, document.entry))) := by
  induction list generalizing index documents with
  | nil => exact mirrors
  | cons document rest ih =>
      have own := keyed document List.mem_cons_self
      have first := mirrors.insert laws document.fingerprint document.extracted
      rw [own] at first
      exact ih (fun other member => keyed other (List.mem_cons_of_mem document member)) first

theorem Mirrors.isSome_iff (mirrors : Mirrors held index documents) (key : DocKey) :
    (held index key).isSome ↔ key ∈ documents.keys := by
  have sides := congrArg Option.isSome (mirrors.values key)
  rw [Option.isSome_map, Option.isSome_map] at sides
  rw [sides, HashMap.mem_keys_iff, Option.isSome_iff_ne_none]

/-- Every entry is that of a document under its own key. -/
theorem Mirrors.entry (mirrors : Mirrors held index documents) {key : DocKey}
    {entry : DocEntry Extracted} (found : documents.lookup key = some entry) :
    ∃ extracted, entry = .of entry.fingerprint extracted ∧ Txcript.key extracted = key := by
  have value := mirrors.values key
  rw [found] at value
  obtain ⟨extracted, present, same⟩ := Option.map_eq_some_iff.mp value
  refine ⟨extracted, ?_, mirrors.keyed key extracted present⟩
  obtain ⟨fingerprint, value⟩ := entry
  exact congrArg (DocEntry.mk fingerprint) same.symm

end Index

section Snapshot

variable {Extracted Stored : Type} [HarnessNames] [DocumentCodec] [Txcript Extracted]
  [SnapshotCodec Extracted Stored]
  {held : Txcript.Index Extracted → DocKey → Option Extracted} {runtime : Runtime Extracted}

omit [HarnessNames] [DocumentCodec] in
/-- The documents that are saved: one for each entry of the map. -/
theorem savedDocuments_ok (mirrors : Mirrors held runtime.index runtime.documents) :
    ∃ documents, (runtime.documents.entries.mapM fun entry => savedDocument entry.1 entry.2) =
        .ok documents ∧ (documents.map Document.key).Nodup ∧
      ∀ document, document ∈ documents ↔
        runtime.documents.lookup document.key = some document.entry := by
  have saved : ∀ entry ∈ runtime.documents.entries, ∃ document : Document Extracted,
      savedDocument entry.1 entry.2 = .ok document ∧ document.key = entry.1 ∧
        document.entry = entry.2 := by
    intro entry member
    obtain ⟨key, entry⟩ := entry
    obtain ⟨extracted, shape, -⟩ := mirrors.entry (HashMap.mem_entries_iff.mp member)
    dsimp only
    rw [shape]
    exact ⟨_, savedDocument_of key entry.fingerprint extracted, rfl, rfl⟩
  obtain ⟨documents, made⟩ := mapM_total fun entry member =>
    (saved entry member).imp fun document given => given.1
  have keys : documents.map Document.key = runtime.documents.keys := by
    refine map_of_mapM_ok made ?_
    intro entry document given
    obtain ⟨extracted, -, shape⟩ := bind_ok given
    cases shape
    rfl
  refine ⟨documents, made, keys ▸ runtime.documents.keys_nodup, ?_⟩
  intro document
  rw [mem_of_mapM_ok made]
  constructor
  · rintro ⟨entry, member, given⟩
    obtain ⟨other, found, key, value⟩ := saved entry member
    cases given.symm.trans found
    obtain ⟨name, entry⟩ := entry
    cases key
    cases value
    exact HashMap.mem_entries_iff.mp member
  · intro found
    exact ⟨⟨document.key, document.entry⟩, HashMap.mem_entries_iff.mpr found,
      savedDocument_of document.key document.fingerprint document.extracted⟩

/-- The snapshot of a runtime that mirrors its index: the documents of the map, sorted. -/
theorem toSnapshot_ok (mirrors : Mirrors held runtime.index runtime.documents) :
    ∃ documents snapshot, runtime.toSnapshot = .ok snapshot ∧
      sealSnapshot runtime.repoKey documents = .ok snapshot ∧
      snapshot.repoKey = runtime.repoKey ∧ snapshot.documents = sortDocuments documents ∧
      snapshot.validate (some runtime.repoKey) = .ok () ∧ (documents.map Document.key).Nodup ∧
      ∀ document, document ∈ documents ↔
        runtime.documents.lookup document.key = some document.entry := by
  obtain ⟨documents, made, unique, members⟩ := savedDocuments_ok mirrors
  have keyed : ∀ document ∈ documents, Txcript.key document.extracted = document.key := by
    intro document member
    obtain ⟨extracted, shape, own⟩ := mirrors.entry ((members document).mp member)
    have same := valueOf_injective (congrArg DocEntry.extracted shape)
    exact same ▸ own
  obtain ⟨snapshot, sealed, owner, sorted, valid⟩ := sealSnapshot_total runtime.repoKey keyed
  refine ⟨documents, snapshot, ?_, sealed, owner, sorted, valid, unique, members⟩
  rw [Runtime.toSnapshot, made, ok_bind, sealed]

omit [DocumentCodec] in
/-- Loading the snapshot gives the map back. -/
theorem intoRuntime_same {snapshot : Snapshot Extracted} {documents : List (Document Extracted)}
    (mirrors : Mirrors held runtime.index runtime.documents)
    (sorted : snapshot.documents = sortDocuments documents)
    (unique : (documents.map Document.key).Nodup)
    (members : ∀ document, document ∈ documents ↔
      runtime.documents.lookup document.key = some document.entry) :
    SameDocuments snapshot.intoRuntime runtime := by
  intro key
  rw [intoRuntime_lookup sorted]
  have keys : ((documents.map fun document => (document.key, document.entry)).map (·.1)).Nodup := by
    rw [List.map_map]
    exact unique
  apply Option.ext
  intro entry
  constructor
  · intro found
    obtain ⟨document, member, shape⟩ := List.mem_map.mp (HashMap.mem_of_lastOf found)
    cases shape
    exact (members document).mp member
  · intro found
    obtain ⟨extracted, shape, -⟩ := mirrors.entry found
    refine HashMap.lastOf_of_mem keys (List.mem_map.mpr ⟨⟨key, entry.fingerprint, extracted⟩,
      (members _).mpr (found.trans (congrArg some shape)), ?_⟩)
    exact Prod.ext rfl shape.symm

end Snapshot

section Calls

variable {Extracted Stored : Type} [HarnessNames] [DocumentCodec] [Txcript Extracted]
  [SnapshotCodec Extracted Stored]
  {held : Txcript.Index Extracted → DocKey → Option Extracted} {repoKey : String}
  {state next : Runtime Extracted × Option Stored}

omit [HarnessNames] [DocumentCodec] in
theorem SavedAs.congr (saved : SavedAs repoKey state) (file : next.2 = state.2)
    (same : SameDocuments state.1 next.1) : SavedAs repoKey next := by
  rcases saved with none | loaded
  · exact .inl ⟨file.trans none.1, fun key => (same key).symm.trans (none.2 key)⟩
  · obtain ⟨snapshot, read, documents⟩ := loaded
    exact .inr ⟨snapshot, file ▸ read, fun key => (documents key).trans (same key)⟩

omit [HarnessNames] [DocumentCodec] in
theorem RuntimeStart.inStep (laws : IndexLaws held) (start : RuntimeStart repoKey state) :
    InStep held repoKey state := by
  cases start with
  | empty =>
      exact ⟨rfl, Mirrors.created laws, fun _ => .inl ⟨rfl, fun _ => AList.lookup_empty _⟩⟩
  | loaded file snapshot read =>
      cases file with
      | none => cases read
      | some stored =>
          obtain ⟨other, accepted, shape⟩ := bind_ok read
          cases shape
          obtain ⟨-, -, owner, keyed⟩ :=
            Snapshot.validate_ok_iff.mp (readSnapshot_ok_iff.mp accepted).2
          exact ⟨owner, Mirrors.insertAll laws snapshot.documents keyed (Mirrors.created laws),
            fun _ => .inr ⟨snapshot, read, fun _ => rfl⟩⟩

omit [HarnessNames] [DocumentCodec] in
theorem InStep.upsert (laws : IndexLaws held) (inStep : InStep held repoKey state)
    (fingerprint : String) (extracted : Extracted) :
    InStep held repoKey
      (state.1.upsert (Txcript.key extracted) fingerprint extracted, state.2) where
  owner := inStep.owner
  mirrors := inStep.mirrors.insert laws fingerprint extracted
  saved := fun clean => by cases clean

omit [HarnessNames] [DocumentCodec] in
/-- A removal that leaves the runtime clean has removed nothing. -/
theorem InStep.remove (laws : IndexLaws held) (inStep : InStep held repoKey state)
    (gone : DocKey) : InStep held repoKey (state.1.remove gone, state.2) where
  owner := inStep.owner
  mirrors := inStep.mirrors.erase laws gone
  saved := by
    intro clean
    obtain ⟨before, absent⟩ := Bool.or_eq_false_iff.mp clean
    refine (inStep.saved before).congr rfl ?_
    intro key
    change _ = (state.1.documents.erase gone).lookup key
    rw [HashMap.lookup_erase_eq]
    split
    · rename_i same
      rw [same]
      exact Option.isSome_eq_false_iff.mp absent |> Option.isNone_iff_eq_none.mp
    · rfl

/-- A save that succeeds writes the snapshot of the runtime. -/
theorem InStep.persist (inStep : InStep held repoKey state) :
    InStep held repoKey (state.1.persist none state.2).2 := by
  obtain ⟨runtime, file⟩ := state
  cases dirty : runtime.dirty with
  | false =>
      have unchanged : (runtime.persist none file).2 = (runtime, file) := by
        simp [Runtime.persist, dirty]
      rw [unchanged]
      exact inStep
  | true =>
      obtain ⟨documents, snapshot, made, -, owner, sorted, valid, unique, members⟩ :=
        toSnapshot_ok inStep.mirrors
      obtain ⟨stored, written, read⟩ := SnapshotCodec.fromSlice_toBytes snapshot
      have saved : (runtime.persist none file).2 =
          ({ runtime with dirty := false }, some stored) := by
        simp only [Runtime.persist, dirty, made, saveLocal, owner, valid, written]
        rfl
      rw [saved]
      have own : runtime.repoKey = repoKey := inStep.owner
      have loaded : loadLocal repoKey (some stored) = .ok (some snapshot) :=
        loadLocal_ok (readSnapshot_ok_iff.mpr ⟨read, own ▸ valid⟩)
      exact ⟨own, inStep.mirrors, fun _ =>
        .inr ⟨snapshot, loaded, intoRuntime_same inStep.mirrors sorted unique members⟩⟩

theorem InStep.step (laws : IndexLaws held) (inStep : InStep held repoKey state)
    (call : RuntimeCall Extracted) (taken : runtimeStep state call = some next) :
    InStep held repoKey next := by
  cases call with
  | upsert fingerprint extracted =>
      cases taken
      exact inStep.upsert laws fingerprint extracted
  | remove key =>
      cases taken
      exact inStep.remove laws key
  | persist =>
      cases taken
      exact inStep.persist

theorem RuntimeReached.inStep (laws : IndexLaws held) (reached : RuntimeReached repoKey state) :
    InStep held repoKey state := by
  obtain ⟨start, started, run⟩ := reached
  exact run.invariant (InStep held repoKey) (started.inStep laws)
    fun _ call _ holds _ taken => holds.step laws call taken

theorem RuntimeReached.call (reached : RuntimeReached repoKey state)
    {call : RuntimeCall Extracted} (taken : runtimeStep state call = some next) :
    RuntimeReached repoKey next := by
  obtain ⟨start, started, run⟩ := reached
  exact ⟨start, started, run.tail trivial taken⟩

end Calls

section Canonical

variable {Extracted Stored : Type} [HarnessNames] [DocumentCodec] [Txcript Extracted]
  [SnapshotCodec Extracted Stored]
  {held : Txcript.Index Extracted → DocKey → Option Extracted}
  {left right : Runtime Extracted} {documents others : List (Document Extracted)}

omit [DocumentCodec] in
theorem DocKey.sortKey_injective : Function.Injective DocKey.sortKey := by
  intro left right same
  obtain ⟨harness, id, source⟩ := left
  obtain ⟨other, name, origin⟩ := right
  have parts := toLex.injective same
  have harnesses := HarnessNames.asStr_injective (congrArg Prod.fst parts)
  have rest := toLex.injective (congrArg Prod.snd parts)
  have ids : id = name := congrArg Prod.fst rest
  have sources : source = origin := congrArg Prod.snd rest
  cases harnesses
  cases ids
  cases sources
  rfl

omit [DocumentCodec] [Txcript Extracted] in
/-- Documents of distinct keys sort the same way from any order. -/
theorem sortDocuments_perm (unique : (documents.map Document.key).Nodup)
    (perm : documents.Perm others) : sortDocuments documents = sortDocuments others := by
  have total := Ranking.total_key fun document : Document Extracted => document.key.sortKey
  have transitive := Ranking.isTrans_key fun document : Document Extracted => document.key.sortKey
  refine List.Perm.eq_of_pairwise ?_ (List.pairwise_insertionSort _ _)
    (List.pairwise_insertionSort _ _)
    ((List.perm_insertionSort _ _).trans (perm.trans (List.perm_insertionSort _ _).symm))
  intro document other member present below above
  have inside := (List.mem_insertionSort _).mp member
  have also := perm.mem_iff.mpr ((List.mem_insertionSort _).mp present)
  exact List.inj_on_of_nodup_map unique inside also
    (DocKey.sortKey_injective (le_antisymm below above))

/-- The document is the one the runtime has under its key. -/
def Runtime.Saves (runtime : Runtime Extracted) (document : Document Extracted) : Prop :=
  runtime.documents.lookup document.key = some document.entry

/-- The bytes that the generation is the hash of: each document led by its length. -/
def Runtime.Hashes (runtime : Runtime Extracted) (text : Bytes) : Prop :=
  ∃ snapshot encoded, runtime.toSnapshot = .ok snapshot ∧
    snapshot.documents.mapM SnapshotCodec.documentBytes = .ok encoded ∧
    text = encoded.flatMap fun bytes => leBytes bytes.length ++ bytes

omit [HarnessNames] [DocumentCodec] in
theorem sameDocuments_iff (mirrors : Mirrors held left.index left.documents)
    (mirrored : Mirrors held right.index right.documents) :
    SameDocuments left right ↔ ∀ document, left.Saves document ↔ right.Saves document := by
  constructor
  · intro same document
    rw [Runtime.Saves, Runtime.Saves, same]
  · intro same key
    apply Option.ext
    intro entry
    constructor
    · intro found
      obtain ⟨extracted, shape, -⟩ := mirrors.entry found
      exact ((same ⟨key, entry.fingerprint, extracted⟩).mp
        (found.trans (congrArg some shape))).trans (congrArg some shape.symm)
    · intro found
      obtain ⟨extracted, shape, -⟩ := mirrored.entry found
      exact ((same ⟨key, entry.fingerprint, extracted⟩).mpr
        (found.trans (congrArg some shape))).trans (congrArg some shape.symm)

omit [DocumentCodec] in
theorem sortDocuments_same (unique : (documents.map Document.key).Nodup)
    (distinct : (others.map Document.key).Nodup)
    (members : ∀ document, document ∈ documents ↔ left.Saves document)
    (present : ∀ document, document ∈ others ↔ right.Saves document)
    (same : SameDocuments left right) : sortDocuments documents = sortDocuments others := by
  refine sortDocuments_perm unique ?_
  refine (List.perm_ext_iff_of_nodup unique.of_map distinct.of_map).mpr ?_
  intro document
  rw [members, present, Runtime.Saves, Runtime.Saves, same]

/-- The snapshot depends on the map and the repository only. -/
theorem toSnapshot_congr (mirrors : Mirrors held left.index left.documents)
    (mirrored : Mirrors held right.index right.documents) (same : SameDocuments left right)
    (owner : left.repoKey = right.repoKey) : left.toSnapshot = right.toSnapshot := by
  obtain ⟨documents, snapshot, made, sealed, -, -, -, unique, members⟩ := toSnapshot_ok mirrors
  obtain ⟨others, second, other, also, -, -, -, distinct, present⟩ := toSnapshot_ok mirrored
  rw [made, other, ← sealed, ← also, sealSnapshot, sealSnapshot, owner,
    sortDocuments_same unique distinct members present same]

omit [Txcript Extracted] in
theorem sealSnapshot_generation {repoKey : String} {snapshot : Snapshot Extracted}
    (sealed : sealSnapshot repoKey documents = .ok snapshot) :
    ∃ encoded, snapshot.documents.mapM SnapshotCodec.documentBytes = .ok encoded ∧
      snapshot.generation =
        DocumentCodec.sha256Hex (encoded.flatMap fun bytes => leBytes bytes.length ++ bytes) := by
  obtain ⟨hash, hashed, sealed⟩ := bind_ok sealed
  cases sealed
  obtain ⟨encoded, made, hashed⟩ := bind_ok hashed
  cases hashed
  exact ⟨encoded, made, rfl⟩

/-- Equal generations are those of equal maps, where the hash and the encoding tell the two
snapshots apart. -/
theorem generation_iff (mirrors : Mirrors held left.index left.documents)
    (mirrored : Mirrors held right.index right.documents)
    (exact : Set.InjOn SnapshotCodec.documentBytes
      {document : Document Extracted | left.Saves document ∨ right.Saves document})
    (short : ∀ document, left.Saves document ∨ right.Saves document → ∀ bytes,
      SnapshotCodec.documentBytes document = .ok bytes → bytes.length < 2 ^ 64)
    (collisionFree :
      Set.InjOn DocumentCodec.sha256Hex {text | left.Hashes text ∨ right.Hashes text}) :
    ∃ snapshot second, left.toSnapshot = .ok snapshot ∧ right.toSnapshot = .ok second ∧
      (snapshot.generation = second.generation ↔ SameDocuments left right) := by
  obtain ⟨documents, snapshot, made, sealed, -, sorted, -, unique, members⟩ := toSnapshot_ok mirrors
  obtain ⟨others, second, other, also, -, arranged, -, distinct, present⟩ := toSnapshot_ok mirrored
  obtain ⟨encoded, written, generation⟩ := sealSnapshot_generation sealed
  obtain ⟨bytes, stored, hash⟩ := sealSnapshot_generation also
  refine ⟨snapshot, second, made, other, ?_⟩
  have inside : ∀ document, document ∈ snapshot.documents ↔ left.Saves document := fun document => by
    rw [sorted, sortDocuments, List.mem_insertionSort]
    exact members document
  have within : ∀ document, document ∈ second.documents ↔ right.Saves document := fun document => by
    rw [arranged, sortDocuments, List.mem_insertionSort]
    exact present document
  constructor
  · intro equal
    rw [generation, hash] at equal
    have texts := collisionFree (.inl ⟨snapshot, encoded, made, written, rfl⟩)
      (.inr ⟨second, bytes, other, stored, rfl⟩) equal
    have parts : encoded = bytes := by
      have fixed : ∀ count, (leBytes count).length = 7 + 1 := fun count =>
        (List.length_map _).trans List.length_range
      refine Delimited.counted_inj fixed (fun _ _ => leBytes_inj) ?_ ?_ texts
      · intro part member
        obtain ⟨document, held, given⟩ := (mem_of_mapM_ok written).mp member
        exact short document (.inl ((inside document).mp held)) part given
      · intro part member
        obtain ⟨document, held, given⟩ := (mem_of_mapM_ok stored).mp member
        exact short document (.inr ((within document).mp held)) part given
    have same : snapshot.documents = second.documents :=
      mapM_inj (fun document member other inSecond => exact (.inl ((inside document).mp member))
        (.inr ((within other).mp inSecond))) written (parts ▸ stored)
    refine (sameDocuments_iff mirrors mirrored).mpr ?_
    intro document
    rw [← inside, ← within, same]
  · intro same
    have equal := sortDocuments_same unique distinct members present same
    rw [sorted, equal, ← arranged, stored] at written
    rw [generation, hash, Except.ok.inj written]

/-- Over every run: the index has the keys of the map, a clean runtime is what its file holds,
and the snapshot and its generation are those of the map. -/
theorem runtimeRuns_canonical (laws : IndexLaws held) {repoKey otherRepo : String}
    {state other : Runtime Extracted × Option Stored} (reached : RuntimeReached repoKey state)
    (also : RuntimeReached otherRepo other)
    (exact : Set.InjOn SnapshotCodec.documentBytes
      {document : Document Extracted | state.1.Saves document ∨ other.1.Saves document})
    (short : ∀ document, state.1.Saves document ∨ other.1.Saves document → ∀ bytes,
      SnapshotCodec.documentBytes document = .ok bytes → bytes.length < 2 ^ 64)
    (collisionFree :
      Set.InjOn DocumentCodec.sha256Hex {text | state.1.Hashes text ∨ other.1.Hashes text}) :
    (∀ key, (held state.1.index key).isSome ↔ key ∈ state.1.documents.keys) ∧
      (state.1.dirty = false → SavedAs repoKey state) ∧
      (SameDocuments state.1 other.1 → repoKey = otherRepo →
        state.1.toSnapshot = other.1.toSnapshot) ∧
      ∃ snapshot second, state.1.toSnapshot = .ok snapshot ∧ other.1.toSnapshot = .ok second ∧
        (snapshot.generation = second.generation ↔ SameDocuments state.1 other.1) := by
  have first := reached.inStep laws
  have second := also.inStep laws
  refine ⟨first.mirrors.isSome_iff, first.saved, ?_, ?_⟩
  · intro same owner
    exact toSnapshot_congr first.mirrors second.mirrors same
      (first.owner.trans (owner.trans second.owner.symm))
  · exact generation_iff first.mirrors second.mirrors exact short collisionFree

end Canonical

section Example

attribute [local instance] HarnessNames.snakeCase DocumentCodec.padded Txcript.plain
  SnapshotCodec.plain

theorem plainIndex_laws : IndexLaws fun (index : List (DocKey × Transcript)) key =>
    index.find? fun extracted => extracted.1 = key := by
  have kept : ∀ (index : List (DocKey × Transcript)) (gone key : DocKey),
      ((index.filter fun other => other.1 ≠ gone).find? fun extracted => extracted.1 = key) =
        if key = gone then none else index.find? fun extracted => extracted.1 = key := by
    intro index gone key
    rw [List.find?_filter]
    split
    · rename_i same
      rw [List.find?_eq_none]
      simp [same]
    · rename_i apart
      refine congrFun (congrArg List.find? (funext fun other => ?_)) index
      by_cases found : other.1 = key
      · simp [found, apart]
      · simp [found]
  refine ⟨fun _ => rfl, ?_, fun index gone key => kept index gone key⟩
  intro index extracted key
  change ((extracted :: index.filter fun other => other.1 ≠ extracted.1).find?
    fun other => other.1 = key) = _
  rw [List.find?_cons, kept]
  by_cases same : extracted.1 = key
  · simp [same, Txcript.key]
  · simp [same, Txcript.key, Ne.symm same]

def sessionText (id : String) : DocKey × Transcript :=
  (⟨.codex, id, none⟩, exampleTranscript "body")

def savedRun : Runtime (DocKey × Transcript) × Option (Snapshot (DocKey × Transcript) ⊕ Bytes) :=
  (((Runtime.empty "repo").upsert (sessionText "a").1 "1:2" (sessionText "a")).persist none none).2

def otherRun : Runtime (DocKey × Transcript) × Option (Snapshot (DocKey × Transcript) ⊕ Bytes) :=
  ((((Runtime.empty "repo").upsert (sessionText "b").1 "1:2" (sessionText "b")).upsert
    (sessionText "a").1 "1:2" (sessionText "a")).remove (sessionText "b").1, none)

theorem otherRun_same : SameDocuments savedRun.1 otherRun.1 := by
  intro key
  change ((∅ : HashMap DocKey (DocEntry (DocKey × Transcript))).insert _ _).lookup key =
    ((((∅ : HashMap DocKey (DocEntry (DocKey × Transcript))).insert _ _).insert _ _).erase
      _).lookup key
  simp only [HashMap.lookup_insert_eq, HashMap.lookup_erase_eq, AList.lookup_empty]
  have apart : (sessionText "b").1 ≠ (sessionText "a").1 := by decide
  by_cases first : key = (sessionText "a").1
  · simp [first, apart.symm]
  · by_cases second : key = (sessionText "b").1 <;> simp [first, second, apart]

theorem emptyRun_reached : RuntimeReached "repo" ((Runtime.empty "repo", none) :
    Runtime (DocKey × Transcript) × Option (Snapshot (DocKey × Transcript) ⊕ Bytes)) :=
  ⟨_, .empty, .refl⟩

theorem savedRun_reached : RuntimeReached "repo" savedRun := by
  have put := emptyRun_reached.call
    (rfl : runtimeStep _ (.upsert "1:2" (sessionText "a")) = some _)
  exact put.call (rfl : runtimeStep _ .persist = some _)

theorem otherRun_reached : RuntimeReached "repo" otherRun := by
  have first := emptyRun_reached.call
    (rfl : runtimeStep _ (.upsert "1:2" (sessionText "b")) = some _)
  have second := first.call (rfl : runtimeStep _ (.upsert "1:2" (sessionText "a")) = some _)
  exact second.call (rfl : runtimeStep _ (.remove (sessionText "b").1) = some _)

/-- A run that saved one document, and one that put another one first and removed it. -/
theorem savedRun_otherRun : SavedAs "repo" savedRun ∧
    savedRun.1.toSnapshot = otherRun.1.toSnapshot ∧
    ∃ snapshot second, savedRun.1.toSnapshot = .ok snapshot ∧ otherRun.1.toSnapshot = .ok second ∧
      (snapshot.generation = second.generation ↔ SameDocuments savedRun.1 otherRun.1) := by
  have first := savedRun_reached.inStep plainIndex_laws
  have second := otherRun_reached.inStep plainIndex_laws
  have texts := toSnapshot_congr first.mirrors second.mirrors otherRun_same rfl
  have saves : ∀ document, savedRun.1.Saves document ∨ otherRun.1.Saves document →
      document = ⟨(sessionText "a").1, "1:2", sessionText "a"⟩ := by
    intro document given
    have found : savedRun.1.Saves document := by
      rcases given with found | found
      · exact found
      · exact (otherRun_same document.key).trans found
    change ((∅ : HashMap DocKey (DocEntry (DocKey × Transcript))).insert _ _).lookup document.key =
      _ at found
    rw [HashMap.lookup_insert_eq] at found
    split at found
    · rename_i key
      exact Document.entry_inj key (Option.some.inj found).symm
    · cases found
  have hashes : ∀ text other, savedRun.1.Hashes text ∨ otherRun.1.Hashes text →
      savedRun.1.Hashes other ∨ otherRun.1.Hashes other → text = other := by
    have only : ∀ text, savedRun.1.Hashes text ∨ otherRun.1.Hashes text →
        savedRun.1.Hashes text := by
      intro text given
      rcases given with found | found
      · exact found
      · obtain ⟨snapshot, encoded, made, rest⟩ := found
        exact ⟨snapshot, encoded, texts.trans made, rest⟩
    intro text other one two
    obtain ⟨snapshot, encoded, made, written, rfl⟩ := only text one
    obtain ⟨copy, bytes, also, stored, rfl⟩ := only other two
    cases made.symm.trans also
    cases written.symm.trans stored
    rfl
  obtain ⟨-, saved, snapshots, generations⟩ := runtimeRuns_canonical plainIndex_laws
    savedRun_reached otherRun_reached
    (fun document one other two _ => (saves document one).trans (saves other two).symm)
    (fun document given bytes written => by
      cases saves document given
      cases written
      decide)
    (fun text one other two _ => hashes text other one two)
  exact ⟨saved rfl, snapshots otherRun_same rfl, generations⟩

end Example

section Server

variable {Extracted Stored : Type} [HarnessNames] [DocumentCodec] [DocumentReader]
  [Txcript Extracted] [SnapshotCodec Extracted Stored] {repoKey : String}
  {state next : Runtime Extracted × Option Stored}

omit [HarnessNames] [DocumentCodec] [DocumentReader] in
/-- Every runtime that a server starts with is empty without a file, or that of its file. -/
theorem runtimeFor_starts {fetched : Except Error (Option Stored)} {diskError : Option Error}
    {file saved : Option Stored} {runtime : Runtime Extracted}
    (started : runtimeFor repoKey fetched diskError file = (.ok runtime, saved)) :
    RuntimeStart repoKey (runtime, saved) := by
  unfold runtimeFor at started
  cases read : (loadLocal repoKey file : Except Error (Option (Snapshot Extracted))) with
  | error error => simp [read] at started
  | ok found =>
      simp only [read] at started
      cases found with
      | some snapshot =>
          cases started
          exact .loaded file snapshot read
      | none =>
          have missing : file = none := by
            cases file with
            | none => rfl
            | some stored =>
                obtain ⟨snapshot, -, shape⟩ := bind_ok read
                cases shape
          subst missing
          cases fetched with
          | error error =>
              cases started
              exact .empty
          | ok published =>
              cases published with
              | none =>
                  cases started
                  exact .empty
              | some plain =>
                  simp only [loadRemote] at started
                  cases accepted : (readSnapshot repoKey plain : Except Error (Snapshot Extracted)) with
                  | error error =>
                      rw [accepted] at started
                      cases started
                      exact .empty
                  | ok snapshot =>
                      rw [accepted] at started
                      rcases saveLocal_cases snapshot diskError (none : Option Stored) with
                        failed | written
                      · obtain ⟨error, shape⟩ := failed
                        simp only [shape] at started
                        cases started
                        exact .empty
                      · obtain ⟨stored, produced, shape⟩ := written
                        simp only [shape] at started
                        cases started
                        obtain ⟨other, same, back⟩ := SnapshotCodec.fromSlice_toBytes snapshot
                        cases produced.symm.trans same
                        exact .loaded _ snapshot (loadLocal_ok (readSnapshot_ok_iff.mpr
                          ⟨back, (readSnapshot_ok_iff.mp accepted).2⟩))

omit [DocumentReader] in
theorem RuntimeReached.removeAll (removes : List DocKey)
    (reached : RuntimeReached repoKey state) :
    RuntimeReached repoKey (removes.foldl Runtime.remove state.1, state.2) := by
  induction removes generalizing state with
  | nil => exact reached
  | cons key rest ih =>
      have removed : runtimeStep state (.remove key) = some (state.1.remove key, state.2) := rfl
      exact ih (reached.call removed)

omit [DocumentReader] in
theorem RuntimeReached.upsertAll (documents : List (Document Extracted))
    (keyed : ∀ document ∈ documents, Txcript.key document.extracted = document.key)
    (reached : RuntimeReached repoKey state) :
    RuntimeReached repoKey (documents.foldl (fun runtime document =>
      runtime.upsert document.key document.fingerprint document.extracted) state.1, state.2) := by
  induction documents generalizing state with
  | nil => exact reached
  | cons document rest ih =>
      have put : runtimeStep state (.upsert document.fingerprint document.extracted) =
          some (state.1.upsert document.key document.fingerprint document.extracted, state.2) := by
        rw [← keyed document List.mem_cons_self]
        rfl
      exact ih (fun other member => keyed other (List.mem_cons_of_mem document member))
        (reached.call put)

/-- A sync whose save succeeds is a run of calls. -/
theorem RuntimeReached.sync (reached : RuntimeReached repoKey state) (merged : List MergedView)
    (bodies : Bodies) (canWrite : Bool) :
    RuntimeReached repoKey ((syncRuntime state.1 merged bodies canWrite none state.2).1,
      (syncRuntime state.1 merged bodies canWrite none state.2).2.1) := by
  have keyed : ∀ document ∈ (loadChanges bodies (state.1.changes (wantedOf merged)) :
      List (Document Extracted)), Txcript.key document.extracted = document.key := by
    intro document member
    obtain ⟨change, _, body, _, rfl⟩ := mem_loadChanges.mp member
    exact Txcript.key_extract _ _
  have applied := (reached.removeAll (state.1.removes (wantedOf merged))).upsertAll _ keyed
  have saved : runtimeStep (state.1.apply (state.1.removes (wantedOf merged))
      (loadChanges bodies (state.1.changes (wantedOf merged))), state.2) .persist =
      some ((state.1.apply (state.1.removes (wantedOf merged))
        (loadChanges bodies (state.1.changes (wantedOf merged)))).persist none state.2).2 := rfl
  have persisted := applied.call saved
  rw [syncRuntime, Runtime.commit]
  generalize (state.1.apply (state.1.removes (wantedOf merged))
    (loadChanges bodies (state.1.changes (wantedOf merged)))).persist none state.2 = ended
    at persisted
  obtain ⟨outcome, runtime, file⟩ := ended
  cases outcome <;> exact persisted

end Server

end AgentTranscript
