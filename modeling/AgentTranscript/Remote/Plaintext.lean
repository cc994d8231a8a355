import AgentTranscript.Crypto.Authenticity
import AgentTranscript.Remote.PlaintextCache
import AgentTranscript.Remote.Store

/-!
Reading an archived body through the cache of decrypted objects. The cache is
shared with other processes and may hold anything.
-/

set_option autoImplicit false

namespace AgentTranscript

open Loop

section Directory

structure CacheFile where
  entry : DirFile
  bytes : Bytes
  deriving DecidableEq, Repr

/-- The directory of the cache, in the order in which it is listed. -/
abbrev CacheDir := List CacheFile

def cacheName (contentHash : String) : String :=
  contentHash ++ ".json"

/-- What the disk lets one call do, and the time it reads from the clock. -/
structure CacheDisk where
  now : Int
  reads : Bool
  touches : Bool
  removeFile : Except Error Unit
  write : Except Error Unit
  removes : DirFile → Bool

/-- A disk that lets a call do everything. -/
structure CacheDisk.Works (disk : CacheDisk) : Prop where
  reads : disk.reads = true
  removeFile : disk.removeFile = .ok ()
  write : disk.write = .ok ()

namespace CacheDir

def read (dir : CacheDir) (name : String) : Option Bytes :=
  (dir.find? fun file => file.entry.isFile && file.entry.name = name).map (·.bytes)

def touch (dir : CacheDir) (name : String) (now : Int) : CacheDir :=
  dir.map fun file =>
    if file.entry.name = name then
      { file with entry := { file.entry with
        stat := file.entry.stat.map fun stat => { stat with modified := some now } } }
    else file

def remove (dir : CacheDir) (name : String) : CacheDir :=
  dir.filter fun file => file.entry.name ≠ name

def write (dir : CacheDir) (name : String) (bytes : Bytes) (now : Int) : CacheDir :=
  dir.remove name ++ [{ entry := ⟨name, true, some ⟨some now, bytes.length⟩⟩, bytes := bytes }]

/-- Sizes that add up to more than 64 bits are left out: nothing is removed then. -/
def prune (dir : CacheDir) (now : Int) (removes : DirFile → Bool) : CacheDir :=
  match prunePlaintextCache now removes (dir.map (·.entry)) with
  | some removed => dir.filter fun file => file.entry ∉ removed
  | none => dir

end CacheDir

end Directory

section Load

variable [DocumentCodec] [CipherSuite]

abbrev Bucket := String → Except Error (Option (Fetched Bytes))

/-- The body as the bucket has it. -/
def fetchPlaintext (key : Key) (get : Bucket) (objectKey contentHash : String) :
    Except Error Bytes := do
  match ← get objectKey with
  | none => .error (.msg s!"catalog points at missing object `{objectKey}`")
  | some fetched =>
      let plain ← decrypt key objectKey fetched.body
      if DocumentCodec.sha256Hex plain ≠ contentHash then
        .error (.msg s!"object `{objectKey}` does not match catalog hash `{contentHash}`")
      else .ok plain

def storePlaintext (disk : CacheDisk) (contentHash : String) (dir : CacheDir) :
    Except Error Bytes → Except Error Bytes × CacheDir
  | .error error => (.error error, dir)
  | .ok plain =>
      match disk.write with
      | .error error => (.error error, dir)
      | .ok _ => (.ok plain,
          (dir.write (cacheName contentHash) plain disk.now).prune disk.now disk.removes)

def loadPlaintext (key : Key) (get : Bucket) (disk : CacheDisk) (dir : CacheDir)
    (objectKey contentHash : String) : Except Error Bytes × CacheDir :=
  let cached := cacheName contentHash
  match if disk.reads then dir.read cached else none with
  | some bytes =>
      if DocumentCodec.sha256Hex bytes = contentHash then
        (.ok bytes, if disk.touches then dir.touch cached disk.now else dir)
      else
        match disk.removeFile with
        | .error error => (.error error, dir)
        | .ok _ => storePlaintext disk contentHash (dir.remove cached)
            (fetchPlaintext key get objectKey contentHash)
  | none => storePlaintext disk contentHash dir (fetchPlaintext key get objectKey contentHash)

end Load

section Answers

variable [DocumentCodec] [CipherSuite] {key : Key} {get : Bucket} {disk : CacheDisk}
  {dir : CacheDir} {objectKey contentHash : String} {plain : Bytes}

/-- The body that the cache has, if it has it and it is the right one. -/
def CacheDir.hit (dir : CacheDir) (contentHash : String) : Option Bytes :=
  (dir.read (cacheName contentHash)).filter fun bytes =>
    DocumentCodec.sha256Hex bytes = contentHash

omit [CipherSuite] in
theorem CacheDir.hit_eq_some_iff : dir.hit contentHash = some plain ↔
    dir.read (cacheName contentHash) = some plain ∧
      DocumentCodec.sha256Hex plain = contentHash := by
  simp [CacheDir.hit, Option.filter_eq_some_iff]

theorem fetchPlaintext_ok_iff : fetchPlaintext key get objectKey contentHash = .ok plain ↔
    ∃ fetched, get objectKey = .ok (some fetched) ∧
      decrypt key objectKey fetched.body = .ok plain ∧
      DocumentCodec.sha256Hex plain = contentHash := by
  unfold fetchPlaintext
  cases get objectKey with
  | error error => simp
  | ok found =>
      cases found with
      | none => simp
      | some fetched =>
          cases opened : decrypt key objectKey fetched.body with
          | error error => simp [opened]
          | ok bytes =>
              by_cases same : DocumentCodec.sha256Hex bytes = contentHash
              · simp only [ok_bind, opened, same, ne_eq, not_true_eq_false, if_false,
                  Except.ok.injEq, Option.some.injEq]
                constructor
                · rintro rfl
                  exact ⟨fetched, rfl, opened, same⟩
                · intro given
                  obtain ⟨_, rfl, reopened, -⟩ := given
                  exact Except.ok.inj (opened.symm.trans reopened)
              · simp only [ok_bind, opened, ne_eq, same, not_false_eq_true, if_true, reduceCtorEq,
                  false_iff]
                intro given
                obtain ⟨other, found, reopened, agrees⟩ := given
                cases found
                rw [opened] at reopened
                cases reopened
                exact same agrees

omit [DocumentCodec] [CipherSuite] in
theorem storePlaintext_ok {fetched : Except Error Bytes}
    (stored : (storePlaintext disk contentHash dir fetched).1 = .ok plain) : fetched = .ok plain := by
  cases fetched with
  | error error => cases stored
  | ok bytes =>
      simp only [storePlaintext] at stored
      cases written : disk.write with
      | error error => simp [written] at stored
      | ok _ =>
          rw [written] at stored
          exact stored

omit [DocumentCodec] [CipherSuite] in
theorem storePlaintext_works (works : disk.Works) (fetched : Except Error Bytes) :
    (storePlaintext disk contentHash dir fetched).1 = fetched := by
  cases fetched with
  | error error => rfl
  | ok bytes => simp only [storePlaintext, works.write]

/-- Where an answer comes from. -/
theorem loadPlaintext_ok
    (loaded : (loadPlaintext key get disk dir objectKey contentHash).1 = .ok plain) :
    dir.hit contentHash = some plain ∨
      fetchPlaintext key get objectKey contentHash = .ok plain := by
  unfold loadPlaintext at loaded
  dsimp only at loaded
  split at loaded
  · rename_i bytes found
    have read : dir.read (cacheName contentHash) = some bytes := by
      split at found
      · exact found
      · cases found
    split at loaded
    · rename_i same
      cases loaded
      exact .inl (CacheDir.hit_eq_some_iff.mpr ⟨read, same⟩)
    · split at loaded
      · cases loaded
      · exact .inr (storePlaintext_ok loaded)
  · exact .inr (storePlaintext_ok loaded)

theorem loadPlaintext_works (works : disk.Works) :
    (loadPlaintext key get disk dir objectKey contentHash).1 =
      ((dir.hit contentHash).map .ok).getD (fetchPlaintext key get objectKey contentHash) := by
  unfold loadPlaintext CacheDir.hit
  simp only [works.reads, if_true]
  cases dir.read (cacheName contentHash) with
  | none => exact storePlaintext_works works _
  | some bytes =>
      by_cases same : DocumentCodec.sha256Hex bytes = contentHash
      · simp only [same, if_true, Option.filter_some, decide_true]
        rfl
      · simp only [same, if_false, works.removeFile, Option.filter_some, decide_false,
          Bool.false_eq_true, Option.map_none, Option.getD_none]
        exact storePlaintext_works works _

theorem loadPlaintext_hash
    (loaded : (loadPlaintext key get disk dir objectKey contentHash).1 = .ok plain) :
    DocumentCodec.sha256Hex plain = contentHash := by
  rcases loadPlaintext_ok loaded with hit | fetched
  · exact (CacheDir.hit_eq_some_iff.mp hit).2
  · obtain ⟨_, _, _, same⟩ := fetchPlaintext_ok_iff.mp fetched
    exact same

end Answers

section Frame

variable {now : Int} {removes : DirFile → Bool} {files removed : List DirFile}

theorem evict_sublist (removes : DirFile → Bool) {total : Nat} {entries : List CacheEntry}
    (evicted : evict removes total entries = some removed) :
    removed ⊆ entries.map (·.file) := by
  induction entries generalizing total removed with
  | nil =>
      cases evicted
      exact List.nil_subset _
  | cons entry rest ih =>
      simp only [evict] at evicted
      split at evicted
      · cases evicted
        exact List.nil_subset _
      · split at evicted
        · split at evicted
          · obtain ⟨later, found, rfl⟩ := Option.map_eq_some_iff.mp evicted
            exact List.cons_subset_cons entry.file (ih found)
          · cases evicted
        · exact List.Subset.trans (ih evicted) (List.subset_cons_self _ _)

theorem cacheEntry_file {file : DirFile} {entry : CacheEntry}
    (found : cacheEntry file = some entry) : entry.file = file ∧ file.IsObject := by
  unfold cacheEntry at found
  split at found
  · cases found
  · rename_i isFile
    split at found
    · cases found
    · split at found
      · rename_i named
        cases found
        exact ⟨rfl, by simpa using isFile, isCacheName_iff.mp named⟩
      · cases found

/-- What a directory loses to `prune_plaintext_cache` are objects of the cache. -/
theorem prunePlaintextCache_objects
    (pruned : prunePlaintextCache now removes files = some removed) :
    ∀ file ∈ removed, file.IsObject := by
  have scanned : (∀ file ∈ (files.foldl (expireStep now removes) ([], [])).1, file.IsObject) ∧
      ∀ entry ∈ (files.foldl (expireStep now removes) ([], [])).2, entry.file.IsObject := by
    refine foldl_invariant (fun _ (state : List DirFile × List CacheEntry) =>
      (∀ file ∈ state.1, file.IsObject) ∧ ∀ entry ∈ state.2, entry.file.IsObject)
      ⟨by simp, by simp⟩ ?_
    intro _ file _ state _ holds
    unfold expireStep
    cases found : cacheEntry file with
    | none => exact holds
    | some entry =>
        obtain ⟨same, object⟩ := cacheEntry_file found
        dsimp only
        split
        · split
          · refine ⟨?_, holds.2⟩
            intro other member
            rcases List.mem_append.mp member with before | last
            · exact holds.1 other before
            · exact List.mem_singleton.mp last ▸ object
          · exact holds
        · refine ⟨holds.1, ?_⟩
          intro other member
          rcases List.mem_append.mp member with before | last
          · exact holds.2 other before
          · exact List.mem_singleton.mp last ▸ same ▸ object
  unfold prunePlaintextCache at pruned
  dsimp only at pruned
  split at pruned
  · obtain ⟨evicted, found, rfl⟩ := Option.map_eq_some_iff.mp pruned
    intro file member
    rcases List.mem_append.mp member with expired | later
    · exact scanned.1 file expired
    · obtain ⟨entry, among, rfl⟩ := List.mem_map.mp (evict_sublist removes found later)
      exact scanned.2 entry (List.mem_insertionSort _ |>.mp among)
  · cases pruned

theorem CacheDir.prune_keeps {dir : CacheDir} {file : CacheFile} (member : file ∈ dir)
    (foreign : ¬ file.entry.IsObject) : file ∈ dir.prune now removes := by
  unfold CacheDir.prune
  split
  · rename_i removed pruned
    refine List.mem_filter.mpr ⟨member, ?_⟩
    simpa using fun gone => foreign (prunePlaintextCache_objects pruned _ gone)
  · exact member

theorem CacheDir.prune_subset (dir : CacheDir) (now : Int) (removes : DirFile → Bool) :
    dir.prune now removes ⊆ dir := by
  unfold CacheDir.prune
  split
  · exact fun _ member => (List.mem_filter.mp member).1
  · exact fun _ member => member

/-- What a change of the directory leaves of it: files under other names that are
no objects of the cache stay, and files under other names are not new. -/
structure Framed (name : String) (before after : CacheDir) : Prop where
  kept : ∀ file ∈ before, file.entry.name ≠ name → ¬ file.entry.IsObject → file ∈ after
  old : ∀ file ∈ after, file.entry.name ≠ name → file ∈ before

theorem Framed.refl (name : String) (dir : CacheDir) : Framed name dir dir :=
  ⟨fun _ member _ _ => member, fun _ member _ => member⟩

variable {name : String} {before middle after : CacheDir}

theorem Framed.trans (first : Framed name before middle) (second : Framed name middle after) :
    Framed name before after where
  kept file member apart foreign :=
    second.kept file (first.kept file member apart foreign) apart foreign
  old file member apart := first.old file (second.old file member apart) apart

theorem Framed.remove (dir : CacheDir) (name : String) : Framed name dir (dir.remove name) where
  kept file member apart _ := List.mem_filter.mpr ⟨member, by simpa using apart⟩
  old _ member _ := (List.mem_filter.mp member).1

theorem Framed.write (dir : CacheDir) (name : String) (bytes : Bytes) (now : Int) :
    Framed name dir (dir.write name bytes now) where
  kept file member apart foreign :=
    List.mem_append_left _ ((Framed.remove dir name).kept file member apart foreign)
  old := by
    intro file member apart
    rcases List.mem_append.mp member with before | last
    · exact (List.mem_filter.mp before).1
    · exact absurd (List.mem_singleton.mp last ▸ rfl) apart

theorem Framed.prune (dir : CacheDir) (name : String) (now : Int) (removes : DirFile → Bool) :
    Framed name dir (dir.prune now removes) where
  kept _ member _ foreign := CacheDir.prune_keeps member foreign
  old _ member _ := CacheDir.prune_subset dir now removes member

theorem Framed.touch (dir : CacheDir) (name : String) (now : Int) :
    Framed name dir (dir.touch name now) where
  kept file member apart _ := List.mem_map.mpr ⟨file, member, if_neg apart⟩
  old := by
    intro file member apart
    obtain ⟨source, present, rfl⟩ := List.mem_map.mp member
    by_cases same : source.entry.name = name
    · rw [if_pos same] at apart
      exact absurd same apart
    · rwa [if_neg same]

variable [DocumentCodec] [CipherSuite] {key : Key} {get : Bucket} {disk : CacheDisk}
  {dir : CacheDir} {objectKey contentHash : String}

omit [DocumentCodec] [CipherSuite] in
theorem storePlaintext_framed (fetched : Except Error Bytes) :
    Framed (cacheName contentHash) dir (storePlaintext disk contentHash dir fetched).2 := by
  cases fetched with
  | error error => exact .refl _ dir
  | ok bytes =>
      unfold storePlaintext
      dsimp only
      split
      · exact .refl _ dir
      · exact (Framed.write dir _ bytes disk.now).trans (.prune _ _ _ _)

theorem loadPlaintext_framed :
    Framed (cacheName contentHash) dir
      (loadPlaintext key get disk dir objectKey contentHash).2 := by
  unfold loadPlaintext
  dsimp only
  split
  · split
    · split
      · exact .touch dir _ disk.now
      · exact .refl _ dir
    · split
      · exact .refl _ dir
      · exact (Framed.remove dir _).trans (storePlaintext_framed _)
  · exact storePlaintext_framed _

end Frame

section Runs

variable [DocumentCodec] [CipherSuite]

/-- One request for a body, with what the bucket and the disk do during it. -/
structure BodyRequest where
  objectKey : String
  contentHash : String
  get : Bucket
  disk : CacheDisk

def BodyRequest.fetch (key : Key) (request : BodyRequest) : Except Error Bytes :=
  fetchPlaintext key request.get request.objectKey request.contentHash

/-- The answers to requests in a row, each with the directory it leaves behind. -/
def loadAll (key : Key) : CacheDir → List BodyRequest → List (Except Error Bytes × CacheDir)
  | _, [] => []
  | dir, request :: rest =>
      let loaded := loadPlaintext key request.get request.disk dir request.objectKey
        request.contentHash
      loaded :: loadAll key loaded.2 rest

/-- What an answer through the cache has to do with one without. -/
structure Answers (key : Key) (dir : CacheDir) (request : BodyRequest)
    (answer : Except Error Bytes × CacheDir) : Prop where
  hash : ∀ plain, answer.1 = .ok plain → DocumentCodec.sha256Hex plain = request.contentHash
  available : request.disk.Works → ∀ plain, request.fetch key = .ok plain → answer.1 = .ok plain
  exact : ∀ plain fetched, answer.1 = .ok plain → request.fetch key = .ok fetched → plain = fetched
  foreign : ∀ file ∈ dir, file.entry.name ≠ cacheName request.contentHash →
    ¬ file.entry.IsObject → file ∈ answer.2

/-- Byte strings that a directory and the requests bring up. -/
def Occurs (key : Key) (dir : CacheDir) (requests : List BodyRequest) : Set Bytes :=
  {bytes | (∃ file ∈ dir, file.bytes = bytes) ∨
    ∃ request ∈ requests, request.fetch key = .ok bytes}

theorem Occurs.later {key : Key} {dir : CacheDir} {request : BodyRequest} {rest : List BodyRequest} :
    Occurs key (loadPlaintext key request.get request.disk dir request.objectKey
      request.contentHash).2 rest ⊆ Occurs key dir (request :: rest) := by
  have storing : ∀ start : CacheDir, (∀ file ∈ start, ∃ other ∈ dir, other.bytes = file.bytes) →
      ∀ file ∈ (storePlaintext request.disk request.contentHash start (request.fetch key)).2,
        (∃ other ∈ dir, other.bytes = file.bytes) ∨ request.fetch key = .ok file.bytes := by
    intro start known file member
    unfold storePlaintext at member
    split at member
    · exact .inl (known file member)
    · rename_i plain fetched
      split at member
      · exact .inl (known file member)
      · rcases List.mem_append.mp (CacheDir.prune_subset _ _ _ member) with before | last
        · exact .inl (known file (List.mem_filter.mp before).1)
        · exact .inr (List.mem_singleton.mp last ▸ fetched)
  have files : ∀ file ∈ (loadPlaintext key request.get request.disk dir request.objectKey
      request.contentHash).2, (∃ other ∈ dir, other.bytes = file.bytes) ∨
        request.fetch key = .ok file.bytes := by
    intro file member
    unfold loadPlaintext at member
    dsimp only at member
    split at member
    · split at member
      · split at member
        · obtain ⟨source, present, rfl⟩ := List.mem_map.mp member
          exact .inl ⟨source, present, by split <;> rfl⟩
        · exact .inl ⟨file, member, rfl⟩
      · split at member
        · exact .inl ⟨file, member, rfl⟩
        · exact storing _ (fun other among => ⟨other, (List.mem_filter.mp among).1, rfl⟩) file member
    · exact storing dir (fun other among => ⟨other, among, rfl⟩) file member
  intro bytes occurs
  rcases occurs with cached | fetched
  · obtain ⟨file, member, rfl⟩ := cached
    rcases files file member with before | new
    · exact .inl before
    · exact .inr ⟨request, List.mem_cons_self, new⟩
  · obtain ⟨other, member, got⟩ := fetched
    exact .inr ⟨other, List.mem_cons_of_mem _ member, got⟩

theorem loadPlaintext_occurs {key : Key} {dir : CacheDir} {request : BodyRequest}
    {rest : List BodyRequest} {plain : Bytes}
    (loaded : (loadPlaintext key request.get request.disk dir request.objectKey
      request.contentHash).1 = .ok plain) : plain ∈ Occurs key dir (request :: rest) := by
  rcases loadPlaintext_ok loaded with hit | fetched
  · obtain ⟨file, found, same⟩ := Option.map_eq_some_iff.mp (CacheDir.hit_eq_some_iff.mp hit).1
    exact .inl ⟨file, List.mem_of_find?_eq_some found, same⟩
  · exact .inr ⟨request, List.mem_cons_self, fetched⟩

theorem loadPlaintext_answers {key : Key} {dir : CacheDir} {request : BodyRequest}
    {rest : List BodyRequest}
    (collisionFree : Set.InjOn DocumentCodec.sha256Hex (Occurs key dir (request :: rest))) :
    Answers key dir request
      (loadPlaintext key request.get request.disk dir request.objectKey request.contentHash) := by
  have fetches : ∀ fetched, request.fetch key = .ok fetched →
      fetched ∈ Occurs key dir (request :: rest) ∧
        DocumentCodec.sha256Hex fetched = request.contentHash := by
    intro fetched plainly
    obtain ⟨_, _, _, same⟩ := fetchPlaintext_ok_iff.mp plainly
    exact ⟨.inr ⟨request, List.mem_cons_self, plainly⟩, same⟩
  have agrees : ∀ plain fetched,
      (loadPlaintext key request.get request.disk dir request.objectKey
        request.contentHash).1 = .ok plain → request.fetch key = .ok fetched → plain = fetched := by
    intro plain fetched loaded plainly
    exact collisionFree (loadPlaintext_occurs loaded) (fetches fetched plainly).1
      ((loadPlaintext_hash loaded).trans (fetches fetched plainly).2.symm)
  refine ⟨fun _ loaded => loadPlaintext_hash loaded, ?_, agrees, loadPlaintext_framed.kept⟩
  intro works plain fetched
  cases hit : dir.hit request.contentHash with
  | none =>
      rw [loadPlaintext_works works, hit]
      exact fetched
  | some bytes =>
      have loaded : (loadPlaintext key request.get request.disk dir request.objectKey
          request.contentHash).1 = .ok bytes := by
        rw [loadPlaintext_works works, hit]
        rfl
      rw [loaded, agrees bytes plain loaded fetched]

/-- Whatever the directory holds at the start, every request of a run is answered as
without the cache, and only objects of the cache are touched. -/
theorem loadAll_answers {key : Key} {dir : CacheDir} {requests : List BodyRequest}
    (collisionFree : Set.InjOn DocumentCodec.sha256Hex (Occurs key dir requests)) :
    List.Forall₂ (fun request answer => ∃ before, Answers key before request answer ∧
        ∀ file ∈ dir, ¬ file.entry.IsObject →
          (∀ other ∈ requests, file.entry.name ≠ cacheName other.contentHash) →
          file ∈ before ∧ file ∈ answer.2)
      requests (loadAll key dir requests) := by
  induction requests generalizing dir with
  | nil => exact .nil
  | cons request rest ih =>
      have first := loadPlaintext_answers collisionFree
      refine .cons ⟨dir, first, ?_⟩ ?_
      · intro file member foreign apart
        exact ⟨member, first.foreign file member (apart request List.mem_cons_self) foreign⟩
      · refine (ih (collisionFree.mono Occurs.later)).imp ?_
        intro later answer given
        obtain ⟨before, answers, kept⟩ := given
        refine ⟨before, answers, ?_⟩
        intro file member foreign apart
        exact kept file
          (first.foreign file member (apart request List.mem_cons_self) foreign) foreign
          fun other among => apart other (List.mem_cons_of_mem request among)

end Runs

section Newest

variable {now : Int} {files removed : List DirFile} {file : DirFile}

theorem filesSize_sublist {some all : List DirFile} (sublist : some.Sublist all) :
    filesSize some ≤ filesSize all :=
  (sublist.map _).sum_le_sum fun _ _ => Nat.zero_le _

/-- The surplus is taken oldest first, so it never gets to a newest file that fits. -/
theorem newest_not_surplus {sorted : List DirFile}
    (ordered : sorted.Pairwise fun left right => left.modified ≤ right.modified)
    (distinct : sorted.Nodup)
    (newest : ∀ other ∈ sorted, other ≠ file → other.modified < file.modified)
    (fits : file.size ≤ plaintextMaxBytes) : file ∉ surplus sorted := by
  obtain ⟨kept, split, -, longer⟩ := surplus_shortest sorted
  intro member
  obtain ⟨before, after, shape⟩ := List.append_of_mem member
  have whole : sorted = before ++ file :: (after ++ kept) := by
    rw [split, shape, List.append_assoc, List.cons_append]
  have alone : after ++ kept = [] := by
    apply List.eq_nil_iff_forall_not_mem.mpr
    intro other among
    rw [whole] at ordered distinct newest
    have above := (List.pairwise_cons.mp (List.pairwise_append.mp ordered).2.1).1 other among
    have apart : other ≠ file := fun same =>
      (List.nodup_cons.mp (List.nodup_append.mp distinct).2.1).1 (same ▸ among)
    have below := newest other (List.mem_append_right _ (List.mem_cons_of_mem _ among)) apart
    exact absurd above below.not_ge
  have long := longer before.length (by simp [shape])
  rw [whole, alone, List.drop_left] at long
  exact absurd fits (by simpa [filesSize] using long)

theorem prune_newest (stats : ∀ other ∈ files, other.stat.isSome)
    (bounded : filesSize files ≤ u64Max) (distinct : files.Nodup) (current : file.modified = now)
    (newest : ∀ other ∈ files, other ≠ file → other.modified < now)
    (fits : file.size ≤ plaintextMaxBytes)
    (pruned : prunePlaintextCache now (fun _ => true) files = some removed) : file ∉ removed := by
  have within : filesSize (freshFiles now files) ≤ u64Max :=
    (filesSize_sublist List.filter_sublist).trans bounded
  have sorted := Ranking.sortedBy_insertionSort DirFile.modified (freshFiles now files)
  rw [prune_eq stats within, Option.some.injEq] at pruned
  subst pruned
  intro member
  rcases List.mem_append.mp member with expired | evicted
  · have old : plaintextMaxAge < now - file.modified :=
      (of_decide_eq_true (List.mem_filter.mp expired).2).2
    have positive : 0 ≤ plaintextMaxAge := by decide
    omega
  · refine newest_not_surplus sorted.ordered ?_ ?_ fits evicted
    · exact sorted.perm.nodup_iff.mpr (distinct.filter _)
    · intro other among apart
      exact current ▸ newest other (List.mem_filter.mp (sorted.perm.mem_iff.mp among)).1 apart

end Newest

section Again

variable {dir : CacheDir} {name : String} {bytes : Bytes} {now : Int}

/-- The file that a call writes. -/
def CacheFile.written (name : String) (bytes : Bytes) (now : Int) : CacheFile where
  entry := ⟨name, true, some ⟨some now, bytes.length⟩⟩
  bytes := bytes

theorem read_touch (dir : CacheDir) (name : String) (now : Int) :
    (dir.touch name now).read name = dir.read name := by
  induction dir with
  | nil => rfl
  | cons file rest ih =>
      unfold CacheDir.read CacheDir.touch at ih ⊢
      by_cases same : file.entry.name = name
      · cases isFile : file.entry.isFile
        · simpa [same, isFile] using ih
        · simp [same, isFile]
      · simpa [same] using ih

/-- A filter that keeps the written file leaves it readable. -/
theorem read_filter_write {keep : CacheFile → Bool}
    (kept : keep (.written name bytes now) = true) :
    CacheDir.read ((dir.write name bytes now).filter keep) name = some bytes := by
  have others : ∀ file ∈ (dir.remove name).filter keep,
      ¬ (file.entry.isFile && file.entry.name = name) = true := by
    intro file member
    have apart := (List.mem_filter.mp (List.mem_filter.mp member).1).2
    simp only [ne_eq, decide_not, Bool.not_eq_eq_eq_not, Bool.not_true,
      decide_eq_false_iff_not] at apart
    simp [apart]
  have last : [CacheFile.written name bytes now].filter keep = [.written name bytes now] := by
    rw [List.filter_cons_of_pos kept, List.filter_nil]
  change (List.find? _ (List.filter keep (dir.remove name ++ [.written name bytes now]))).map _ = _
  rw [List.filter_append, last, List.find?_append, List.find?_eq_none.mpr others]
  simp [CacheFile.written]

theorem read_prune_write (unique : (dir.map (·.entry.name)).Nodup)
    (stats : ∀ file ∈ dir, file.entry.stat.isSome)
    (older : ∀ file ∈ dir, file.entry.modified < now)
    (fits : bytes.length ≤ plaintextMaxBytes)
    (bounded : filesSize (dir.map (·.entry)) + bytes.length ≤ u64Max) :
    CacheDir.read ((dir.write name bytes now).prune now fun _ => true) name = some bytes := by
  have listed : (dir.write name bytes now).map (·.entry) =
      (dir.remove name).map (·.entry) ++ [(CacheFile.written name bytes now).entry] :=
    List.map_append
  have inside : ∀ other ∈ (dir.write name bytes now).map (·.entry),
      other = (CacheFile.written name bytes now).entry ∨
        ∃ file ∈ dir, file.entry.name ≠ name ∧ file.entry = other := by
    intro other member
    rw [listed] at member
    rcases List.mem_append.mp member with before | last
    · obtain ⟨file, present, rfl⟩ := List.mem_map.mp before
      obtain ⟨among, apart⟩ := List.mem_filter.mp present
      exact .inr ⟨file, among, by simpa using apart, rfl⟩
    · exact .inl (List.mem_singleton.mp last)
  unfold CacheDir.prune
  split
  · rename_i removed pruned
    apply read_filter_write
    have stays : (CacheFile.written name bytes now).entry ∉ removed := by
      refine prune_newest ?_ ?_ ?_ rfl ?_ fits pruned
      · intro other member
        rcases inside other member with rfl | present
        · rfl
        · obtain ⟨file, among, -, rfl⟩ := present
          exact stats file among
      · have sizes := filesSize_sublist
          ((List.filter_sublist (p := fun file : CacheFile => file.entry.name ≠ name)
            (l := dir)).map (·.entry))
        have total : filesSize ((dir.write name bytes now).map (·.entry)) =
            filesSize ((dir.remove name).map (·.entry)) + bytes.length := by
          rw [listed, filesSize, List.map_append, List.sum_append]
          rfl
        rw [total]
        exact (Nat.add_le_add_right sizes _).trans bounded
      · have names : ((dir.write name bytes now).map (·.entry)).map (·.name) =
            (dir.remove name).map (·.entry.name) ++ [name] := by
          rw [listed, List.map_append, List.map_map]
          rfl
        apply List.Nodup.of_map (·.name)
        rw [names, List.nodup_append]
        refine ⟨unique.sublist (List.filter_sublist.map _), List.nodup_singleton _, ?_⟩
        intro left leftIn right rightIn same
        obtain ⟨file, present, rfl⟩ := List.mem_map.mp leftIn
        rw [List.mem_singleton] at rightIn
        simpa [same, rightIn] using (List.mem_filter.mp present).2
      · intro other member apart
        rcases inside other member with same | present
        · exact absurd same apart
        · obtain ⟨file, among, -, rfl⟩ := present
          exact older file among
    simpa using stays
  · have all := @read_filter_write dir name bytes now (fun _ => true) rfl
    rwa [List.filter_true] at all

/-- A directory in which the file that is written last is the newest, and fits. -/
structure Roomy (dir : CacheDir) (now : Int) (size : Nat) : Prop where
  unique : (dir.map (·.entry.name)).Nodup
  stats : ∀ file ∈ dir, file.entry.stat.isSome
  older : ∀ file ∈ dir, file.entry.modified < now
  fits : size ≤ plaintextMaxBytes
  bounded : filesSize (dir.map (·.entry)) + size ≤ u64Max

theorem Roomy.remove {size : Nat} (roomy : Roomy dir now size) (name : String) :
    Roomy (dir.remove name) now size where
  unique := roomy.unique.sublist (List.filter_sublist.map _)
  stats file member := roomy.stats file (List.mem_filter.mp member).1
  older file member := roomy.older file (List.mem_filter.mp member).1
  fits := roomy.fits
  bounded := (Nat.add_le_add_right (filesSize_sublist (List.filter_sublist.map _)) _).trans
    roomy.bounded

variable {disk later : CacheDisk} {contentHash objectKey : String} {plain : Bytes}

theorem storePlaintext_read {fetched : Except Error Bytes} (roomy : Roomy dir disk.now plain.length)
    (removes : disk.removes = fun _ => true)
    (stored : (storePlaintext disk contentHash dir fetched).1 = .ok plain) :
    (storePlaintext disk contentHash dir fetched).2.read (cacheName contentHash) = some plain := by
  obtain rfl := storePlaintext_ok stored
  unfold storePlaintext at stored ⊢
  cases written : disk.write with
  | error error =>
      rw [written] at stored
      cases stored
  | ok _ =>
      simp only [removes]
      exact read_prune_write roomy.unique roomy.stats roomy.older roomy.fits roomy.bounded

variable [DocumentCodec] [CipherSuite] {key : Key} {get : Bucket}

theorem loadPlaintext_read (roomy : Roomy dir disk.now plain.length)
    (removes : disk.removes = fun _ => true)
    (loaded : (loadPlaintext key get disk dir objectKey contentHash).1 = .ok plain) :
    (loadPlaintext key get disk dir objectKey contentHash).2.read (cacheName contentHash) =
      some plain := by
  unfold loadPlaintext at loaded ⊢
  dsimp only at loaded ⊢
  split at loaded
  · rename_i bytes found
    have read : dir.read (cacheName contentHash) = some bytes := by
      split at found
      · exact found
      · cases found
    split at loaded
    · rename_i same
      cases loaded
      rw [if_pos same]
      by_cases touches : disk.touches = true
      · simp only [touches, if_true]
        rw [read_touch, read]
      · rw [if_neg touches]
        exact read
    · rename_i different
      rw [if_neg different]
      split at loaded
      · cases loaded
      · exact storePlaintext_read (roomy.remove _) removes loaded
  · exact storePlaintext_read roomy removes loaded

/-- A body that was read is read again, whatever the bucket answers then. -/
theorem loadPlaintext_again (roomy : Roomy dir disk.now plain.length)
    (removes : disk.removes = fun _ => true)
    (loaded : (loadPlaintext key get disk dir objectKey contentHash).1 = .ok plain)
    (reads : later.reads = true) (other : Bucket) :
    (loadPlaintext key other later
      (loadPlaintext key get disk dir objectKey contentHash).2 objectKey contentHash).1 =
        .ok plain := by
  have read := loadPlaintext_read roomy removes loaded
  have same := loadPlaintext_hash loaded
  generalize (loadPlaintext key get disk dir objectKey contentHash).2 = after at read
  unfold loadPlaintext
  simp only [reads, if_true, read, same]

end Again

section Example

attribute [local instance] DocumentCodec.padded catalogSuite

def workingDisk : CacheDisk where
  now := 1
  reads := true
  touches := true
  removeFile := .ok ()
  write := .ok ()
  removes _ := true

/-- The bucket with the one honest object. -/
def catalogBucket : Bucket := fun _ =>
  .ok (some ⟨packed .zstd catalogWrite.nonce.bytes (catalogMessage ++ zeroTag), none⟩)

def catalogRequest : BodyRequest where
  objectKey := "v1/catalog"
  contentHash := DocumentCodec.sha256Hex catalogWrite.plaintext
  get := catalogBucket
  disk := workingDisk

theorem catalogRequest_fetch :
    catalogRequest.fetch exampleKey = .ok catalogWrite.plaintext := by decide +kernel

/-- A file of someone else, and a damaged object. -/
def damagedDir : CacheDir :=
  [.written "notes.txt" [0x62] 0, .written (cacheName catalogRequest.contentHash) [0x61] 0]

theorem damagedDir_collisionFree : Set.InjOn DocumentCodec.sha256Hex
    (Occurs exampleKey damagedDir [catalogRequest]) := by
  have known : ∀ bytes ∈ Occurs exampleKey damagedDir [catalogRequest],
      bytes ∈ [[0x62], [0x61], catalogWrite.plaintext] := by
    intro bytes occurs
    rcases occurs with cached | fetched
    · obtain ⟨file, member, rfl⟩ := cached
      simp only [damagedDir, List.mem_cons, List.not_mem_nil, or_false] at member
      rcases member with rfl | rfl
      · simp [CacheFile.written]
      · simp [CacheFile.written]
    · obtain ⟨request, member, got⟩ := fetched
      obtain rfl := List.mem_singleton.mp member
      rw [catalogRequest_fetch] at got
      cases got
      simp
  have apart : ∀ one ∈ [[0x62], [0x61], catalogWrite.plaintext],
      ∀ other ∈ [[0x62], [0x61], catalogWrite.plaintext],
      DocumentCodec.sha256Hex one = DocumentCodec.sha256Hex other → one = other := by decide +kernel
  exact fun one oneIn other otherIn same =>
    apart one (known one oneIn) other (known other otherIn) same

theorem loadAll_answers_damaged :
    List.Forall₂ (fun request answer => ∃ before, Answers exampleKey before request answer ∧
        ∀ file ∈ damagedDir, ¬ file.entry.IsObject →
          (∀ other ∈ [catalogRequest], file.entry.name ≠ cacheName other.contentHash) →
          file ∈ before ∧ file ∈ answer.2)
      [catalogRequest] (loadAll exampleKey damagedDir [catalogRequest]) :=
  loadAll_answers damagedDir_collisionFree

theorem damagedDir_loaded : (loadPlaintext exampleKey catalogBucket workingDisk damagedDir
    "v1/catalog" catalogRequest.contentHash).1 = .ok catalogWrite.plaintext := by decide +kernel

/-- The second answer comes without the bucket. -/
theorem loadPlaintext_again_offline : (loadPlaintext exampleKey
    (fun _ => .error (.msg "unreachable")) workingDisk
    (loadPlaintext exampleKey catalogBucket workingDisk damagedDir "v1/catalog"
      catalogRequest.contentHash).2 "v1/catalog" catalogRequest.contentHash).1 =
        .ok catalogWrite.plaintext := by
  have roomy : Roomy damagedDir workingDisk.now catalogWrite.plaintext.length :=
    ⟨by decide +kernel, by decide, by decide, by decide, by decide⟩
  exact loadPlaintext_again roomy rfl damagedDir_loaded rfl _

end Example

end AgentTranscript
