import AgentTranscript.Library.Ranking
import AgentTranscript.Text

/-!
Pruning of the cache of decrypted objects: files that are too old go, and then the least
recently used ones while the rest is over the budget.
-/

set_option autoImplicit false

namespace AgentTranscript

section Definitions

def plaintextMaxBytes : Nat := 512 * 1024 * 1024

/-- Thirty days, in nanoseconds. -/
def plaintextMaxAge : Int := 30 * 24 * 60 * 60 * 1000000000

def u64Max : Nat := 2 ^ 64 - 1

/-- What `metadata` gives: the time of the last change in nanoseconds since the epoch, where
the platform has it, and the size. -/
structure FileStat where
  modified : Option Int
  length : Nat
  deriving DecidableEq, Repr

structure DirFile where
  name : String
  isFile : Bool
  stat : Option FileStat
  deriving DecidableEq, Repr

/-- The extension is `json` and the stem is a content hash. -/
def isCacheName (name : String) : Bool :=
  match rsplitOnce name '.' with
  | some (stem, extension) =>
      extension = "json" && stem.utf8ByteSize = 64 && stem.toList.all isAsciiHexdigit
  | none => false

structure CacheEntry where
  file : DirFile
  modified : Int
  size : Nat
  deriving DecidableEq, Repr

/-- The file as an entry of the cache, if it is one. -/
def cacheEntry (file : DirFile) : Option CacheEntry :=
  if !file.isFile then none
  else
    match file.stat with
    | none => none
    | some stat =>
        if isCacheName file.name then some ⟨file, stat.modified.getD 0, stat.length⟩ else none

/-- `duration_since` is an error for times in the future. -/
def CacheEntry.old (now : Int) (entry : CacheEntry) : Bool :=
  entry.modified ≤ now && now - entry.modified > plaintextMaxAge

/-- One turn of the loop over the directory: the files removed so far, and the entries that
stay for now. -/
def expireStep (now : Int) (removes : DirFile → Bool) (state : List DirFile × List CacheEntry)
    (file : DirFile) : List DirFile × List CacheEntry :=
  match cacheEntry file with
  | none => state
  | some entry =>
      if entry.old now then (if removes file then (state.1 ++ [file], state.2) else state)
      else (state.1, state.2 ++ [entry])

/-- The loop that evicts, with the running total. `none` is an underflow of the total. -/
def evict (removes : DirFile → Bool) : Nat → List CacheEntry → Option (List DirFile)
  | _, [] => some []
  | total, entry :: rest =>
      if total ≤ plaintextMaxBytes then some []
      else if removes entry.file then
        if entry.size ≤ total then
          (evict removes (total - entry.size) rest).map (entry.file :: ·)
        else none
      else evict removes total rest

/-- The files that are removed. `none` is an overflow of the sum or an underflow. -/
def prunePlaintextCache (now : Int) (removes : DirFile → Bool) (files : List DirFile) :
    Option (List DirFile) :=
  let (expired, entries) := files.foldl (expireStep now removes) ([], [])
  let sorted := entries.insertionSort fun left right => left.modified ≤ right.modified
  let total := (sorted.map (·.size)).sum
  if total ≤ u64Max then (evict removes total sorted).map (expired ++ ·) else none

end Definitions

section Names

variable {name stem : String}

/-- The names of the cache: 64 hexadecimal digits and the extension. -/
theorem isCacheName_iff : isCacheName name = true ↔
    ∃ stem, name = stem ++ ".json" ∧ stem.toList.length = 64 ∧
      ∀ char ∈ stem.toList, isAsciiHexdigit char = true := by
  have bytes : ∀ stem : String, (∀ char ∈ stem.toList, isAsciiHexdigit char = true) →
      stem.utf8ByteSize = stem.toList.length := fun stem hex => by
    have size := utf8ByteSize_of_digits (List.all_eq_true.mpr hex)
    rwa [String.ofList_toList] at size
  constructor
  · intro accepted
    cases parts : rsplitOnce name '.' with
    | none => simp [isCacheName, parts] at accepted
    | some pair =>
        obtain ⟨stem, extension⟩ := pair
        simp only [isCacheName, parts, Bool.and_eq_true, decide_eq_true_eq,
          List.all_eq_true] at accepted
        obtain ⟨⟨rfl, size⟩, hex⟩ := accepted
        have whole : name = stem ++ (String.singleton '.' ++ "json") :=
          (rsplitOnce_eq parts).trans (String.append_assoc ..)
        exact ⟨stem, whole, (bytes stem hex).symm.trans size, hex⟩
  · rintro ⟨stem, rfl, length, hex⟩
    have parts : rsplitOnce (stem ++ String.singleton '.' ++ "json") '.' =
        some (stem, "json") := rsplitOnce_append (by simp)
    rw [String.append_assoc] at parts
    change rsplitOnce (stem ++ ".json") '.' = some (stem, "json") at parts
    simp only [isCacheName, parts, bytes stem hex, length, Bool.and_eq_true, decide_eq_true_eq,
      List.all_eq_true]
    exact ⟨⟨trivial, trivial⟩, hex⟩

end Names

section Files

def DirFile.modified (file : DirFile) : Int :=
  (file.stat.bind (·.modified)).getD 0

def DirFile.size (file : DirFile) : Nat :=
  (file.stat.map (·.length)).getD 0

def DirFile.entry (file : DirFile) : CacheEntry :=
  ⟨file, file.modified, file.size⟩

def filesSize (files : List DirFile) : Nat :=
  (files.map (·.size)).sum

theorem filesSize_cons (file : DirFile) (files : List DirFile) :
    filesSize (file :: files) = file.size + filesSize files := by
  simp [filesSize]

end Files

section Evict

/-- The files that the loop removes, when every removal succeeds. -/
def surplus : List DirFile → List DirFile
  | [] => []
  | file :: rest =>
      if filesSize (file :: rest) ≤ plaintextMaxBytes then [] else file :: surplus rest

theorem evict_total (files : List DirFile) :
    evict (fun _ => true) (filesSize files) (files.map DirFile.entry) = some (surplus files) := by
  induction files with
  | nil => rfl
  | cons file rest ih =>
      by_cases within : filesSize (file :: rest) ≤ plaintextMaxBytes
      · simp only [List.map_cons, evict, surplus, if_pos within]
      · have covered : file.entry.size ≤ filesSize (file :: rest) := by
          rw [filesSize_cons]
          exact Nat.le_add_right _ _
        have left : filesSize (file :: rest) - file.entry.size = filesSize rest := by
          rw [filesSize_cons]
          exact Nat.add_sub_cancel_left ..
        simp only [List.map_cons, evict, surplus, if_neg within, if_true, if_pos covered, left, ih]
        rfl

/-- The surplus is the shortest prefix without which the rest is within the budget. -/
theorem surplus_shortest (files : List DirFile) :
    ∃ kept, files = surplus files ++ kept ∧ filesSize kept ≤ plaintextMaxBytes ∧
      ∀ count < (surplus files).length, plaintextMaxBytes < filesSize (files.drop count) := by
  induction files with
  | nil => exact ⟨[], rfl, Nat.zero_le _, fun count fewer => absurd fewer (Nat.not_lt_zero count)⟩
  | cons file rest ih =>
      by_cases within : filesSize (file :: rest) ≤ plaintextMaxBytes
      · have none : surplus (file :: rest) = [] := if_pos within
        rw [none]
        exact ⟨_, rfl, within, fun count fewer => absurd fewer (Nat.not_lt_zero count)⟩
      · have first : surplus (file :: rest) = file :: surplus rest := if_neg within
        obtain ⟨kept, split, fits, longer⟩ := ih
        rw [first]
        refine ⟨kept, congrArg (file :: ·) split, fits, ?_⟩
        intro count fewer
        cases count with
        | zero => exact Nat.lt_of_not_le within
        | succ count => exact longer count (Nat.lt_of_succ_lt_succ fewer)

end Evict

section Listing

/-- A file that the cache wrote: 64 hexadecimal digits and the extension. -/
def DirFile.IsObject (file : DirFile) : Prop :=
  file.isFile = true ∧ ∃ stem, file.name = stem ++ ".json" ∧ stem.toList.length = 64 ∧
    ∀ char ∈ stem.toList, isAsciiHexdigit char = true

def DirFile.Old (now : Int) (file : DirFile) : Prop :=
  plaintextMaxAge < now - file.modified

instance (file : DirFile) : Decidable file.IsObject :=
  decidable_of_iff (file.isFile = true ∧ isCacheName file.name = true)
    (and_congr_right fun _ => isCacheName_iff)

instance (now : Int) (file : DirFile) : Decidable (file.Old now) :=
  inferInstanceAs (Decidable (_ < _))

def expiredFiles (now : Int) (files : List DirFile) : List DirFile :=
  files.filter fun file => file.IsObject ∧ file.Old now

def freshFiles (now : Int) (files : List DirFile) : List DirFile :=
  files.filter fun file => file.IsObject ∧ ¬ file.Old now

variable {now : Int} {files : List DirFile} {file : DirFile}

theorem cacheEntry_eq (stat : file.stat.isSome) :
    cacheEntry file = if file.IsObject then some file.entry else none := by
  obtain ⟨name, isFile, status⟩ := file
  cases status with
  | none => cases stat
  | some info =>
      have accepted : DirFile.IsObject ⟨name, isFile, some info⟩ ↔
          isFile = true ∧ isCacheName name = true :=
        and_congr_right fun _ => isCacheName_iff.symm
      cases isFile <;> cases valid : isCacheName name <;>
        simp [cacheEntry, accepted, valid, DirFile.entry, DirFile.modified, DirFile.size]

theorem old_eq (now : Int) (file : DirFile) : file.entry.old now = decide (file.Old now) := by
  have positive : 0 ≤ plaintextMaxAge := by decide
  rw [Bool.eq_iff_iff, decide_eq_true_iff]
  change (decide (file.modified ≤ now) && decide (plaintextMaxAge < now - file.modified)) = true ↔
    plaintextMaxAge < now - file.modified
  rw [Bool.and_eq_true, decide_eq_true_iff, decide_eq_true_iff]
  omega

/-- What one turn of the loop does with a file whose `stat` and removal succeed. -/
theorem expireStep_eq (stat : file.stat.isSome) (state : List DirFile × List CacheEntry) :
    expireStep now (fun _ => true) state file =
      (state.1 ++ expiredFiles now [file], state.2 ++ (freshFiles now [file]).map (·.entry)) := by
  by_cases object : file.IsObject <;> by_cases old : file.Old now <;>
    simp [expireStep, cacheEntry_eq stat, old_eq, expiredFiles, freshFiles, object, old]

theorem expire_eq (stats : ∀ file ∈ files, file.stat.isSome) :
    ∀ state, files.foldl (expireStep now fun _ => true) state =
      (state.1 ++ expiredFiles now files, state.2 ++ (freshFiles now files).map (·.entry)) := by
  induction files with
  | nil => exact fun state => by simp [expiredFiles, freshFiles]
  | cons file rest ih =>
      intro state
      have others := ih fun other member => stats other (List.mem_cons_of_mem file member)
      rw [List.foldl_cons, expireStep_eq (stats file List.mem_cons_self), others]
      have expired : expiredFiles now (file :: rest) =
          expiredFiles now [file] ++ expiredFiles now rest := List.filter_append [file] rest
      have fresh : freshFiles now (file :: rest) = freshFiles now [file] ++ freshFiles now rest :=
        List.filter_append [file] rest
      rw [expired, fresh, List.map_append, List.append_assoc, List.append_assoc]

/-- The loop that evicts gets the fresh objects, oldest first, and their total size. -/
theorem prune_eq (stats : ∀ file ∈ files, file.stat.isSome)
    (bounded : filesSize (freshFiles now files) ≤ u64Max) :
    prunePlaintextCache now (fun _ => true) files = some (expiredFiles now files ++
      surplus ((freshFiles now files).insertionSort fun left right =>
        left.modified ≤ right.modified)) := by
  have listed : files.foldl (expireStep now fun _ => true) ([], []) = _ := expire_eq stats ([], [])
  have sorted := List.map_insertionSort (fun left right : DirFile => left.modified ≤ right.modified)
    (fun left right : CacheEntry => left.modified ≤ right.modified) DirFile.entry
    (freshFiles now files) fun _ _ _ _ => Iff.rfl
  have sizes : ∀ files : List DirFile,
      ((files.map DirFile.entry).map (·.size)).sum = filesSize files := fun files => by
    rw [List.map_map]
    rfl
  have total : filesSize ((freshFiles now files).insertionSort fun left right =>
      left.modified ≤ right.modified) = filesSize (freshFiles now files) :=
    ((List.perm_insertionSort _ _).map _).sum_eq
  simp only [prunePlaintextCache, listed, List.nil_append, ← sorted, sizes, total, if_pos bounded]
  rw [← total, evict_total]
  rfl

/-- What is removed, when every `stat` and every removal succeeds: the expired objects, and of
the others the shortest prefix, oldest first, that brings the rest within the budget. -/
theorem prunePlaintextCache_specified (now : Int) (files : List DirFile)
    (stats : ∀ file ∈ files, file.stat.isSome)
    (bounded : filesSize (freshFiles now files) ≤ u64Max) :
    ∃ evicted kept, prunePlaintextCache now (fun _ => true) files =
        some (expiredFiles now files ++ evicted) ∧
      Ranking.SortedBy DirFile.modified (freshFiles now files) (evicted ++ kept) ∧
      filesSize kept ≤ plaintextMaxBytes ∧
      (∀ count < evicted.length, plaintextMaxBytes < filesSize ((evicted ++ kept).drop count)) ∧
      (∀ removed ∈ evicted, ∀ file ∈ kept, removed.modified ≤ file.modified) ∧
      ∀ removed ∈ expiredFiles now files ++ evicted, removed ∈ files ∧ removed.IsObject := by
  have sorted := Ranking.sortedBy_insertionSort DirFile.modified (freshFiles now files)
  have pruned := prune_eq stats bounded
  generalize (freshFiles now files).insertionSort (fun left right =>
    left.modified ≤ right.modified) = oldest at sorted pruned
  obtain ⟨kept, split, fits, longer⟩ := surplus_shortest oldest
  refine ⟨surplus oldest, kept, pruned, split ▸ sorted, fits, split ▸ longer, ?_, ?_⟩
  · have ordered := sorted.ordered
    rw [split, List.pairwise_append] at ordered
    exact ordered.2.2
  · intro removed member
    rcases List.mem_append.mp member with expired | evicted
    · have chosen := List.mem_filter.mp expired
      exact ⟨chosen.1, (of_decide_eq_true chosen.2).1⟩
    · have inside : removed ∈ oldest := split ▸ List.mem_append_left kept evicted
      have chosen := List.mem_filter.mp (sorted.perm.mem_iff.mp inside)
      exact ⟨chosen.1, (of_decide_eq_true chosen.2).1⟩

def objectFile (digit : Char) (modified : Int) (length : Nat) : DirFile :=
  ⟨String.ofList (List.replicate 64 digit) ++ ".json", true, some ⟨some modified, length⟩⟩

theorem objectFile_isObject {digit : Char} (hex : isAsciiHexdigit digit = true) (modified : Int)
    (length : Nat) : (objectFile digit modified length).IsObject := by
  refine ⟨rfl, String.ofList (List.replicate 64 digit), rfl, by simp, ?_⟩
  intro char member
  rw [String.toList_ofList] at member
  exact (List.eq_of_mem_replicate member) ▸ hex

/-- An object from before the time limit, and two recent ones that are too large together. -/
def cacheListing : List DirFile :=
  [objectFile 'a' (-1 - plaintextMaxAge) 10, objectFile 'b' (-1) plaintextMaxBytes,
    objectFile 'c' (-2) plaintextMaxBytes]

theorem cacheListing_pruned :
    ∃ evicted kept, prunePlaintextCache 0 (fun _ => true) cacheListing =
        some ([objectFile 'a' (-1 - plaintextMaxAge) 10] ++ evicted) ∧
      Ranking.SortedBy DirFile.modified
        [objectFile 'b' (-1) plaintextMaxBytes, objectFile 'c' (-2) plaintextMaxBytes]
        (evicted ++ kept) ∧
      filesSize kept ≤ plaintextMaxBytes := by
  have first := objectFile_isObject (by decide : isAsciiHexdigit 'a' = true) (-1 - plaintextMaxAge) 10
  have second := objectFile_isObject (by decide : isAsciiHexdigit 'b' = true) (-1) plaintextMaxBytes
  have third := objectFile_isObject (by decide : isAsciiHexdigit 'c' = true) (-2) plaintextMaxBytes
  have old : (objectFile 'a' (-1 - plaintextMaxAge) 10).Old 0 := by decide
  have recent : ¬ (objectFile 'b' (-1) plaintextMaxBytes).Old 0 := by decide
  have newer : ¬ (objectFile 'c' (-2) plaintextMaxBytes).Old 0 := by decide
  have expired : expiredFiles 0 cacheListing = [objectFile 'a' (-1 - plaintextMaxAge) 10] := by
    simp [expiredFiles, cacheListing, first, old, recent, newer]
  have fresh : freshFiles 0 cacheListing =
      [objectFile 'b' (-1) plaintextMaxBytes, objectFile 'c' (-2) plaintextMaxBytes] := by
    simp [freshFiles, cacheListing, second, third, old, recent, newer]
  have bounded : filesSize (freshFiles 0 cacheListing) ≤ u64Max := by
    rw [fresh]
    decide
  obtain ⟨evicted, kept, pruned, sorted, fits, -⟩ :=
    prunePlaintextCache_specified 0 cacheListing (by decide) bounded
  exact ⟨evicted, kept, expired ▸ pruned, fresh ▸ sorted, fits⟩

end Listing

end AgentTranscript
