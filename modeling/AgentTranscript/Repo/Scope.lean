import AgentTranscript.Library.SortedMap
import AgentTranscript.Local.Reading

/-!
The repository that a request addresses: the one of an explicit directory, the one that
the roots of the client's workspace agree on, or the one the server was launched in.
-/

set_option autoImplicit false

namespace AgentTranscript

section Definitions

/-- `Path::is_absolute`, on Unix. -/
def isAbsolute (path : String) : Bool :=
  startsWith path "/"

def scopeDirectory (machine : Machine) (cwd : Option String) (processCwd : String) : String :=
  match cwd with
  | some path =>
      let normalized := normalizeCwd machine path
      if isAbsolute normalized then normalized else pushPath processCwd normalized
  | none => processCwd

def RepoResolution.intoKey (dir : String) : RepoResolution → Except Error String
  | .key repoKey => .ok repoKey
  | .noOrigin => .error (.msg s!"cannot resolve origin of {dir}")
  | .failed error => .error (.msg error)

@[irreducible] def rootDirectory (machine : Machine) (uri : String) : Except Error String :=
  let path := normalizeCwd machine uri
  if path.isEmpty || !isAbsolute path then
    .error (.msg s!"workspace root \x60{uri}\x60 is not absolute")
  else .ok path

/-- The single repository that the roots of a workspace identify. -/
def oneRepositoryKey (resolved unresolved : List String) : Except Error String :=
  if resolved.isEmpty then
    .error (.msg ("workspace roots do not identify a repository: " ++
      String.intercalate ", " unresolved))
  else
    match (resolved.insertionSort (· ≤ ·)).dedup with
    | [key] => .ok key
    | several => .error (.msg ("workspace roots identify more than one repository: " ++
        String.intercalate ", " several))

/-- What the client reports of its workspace: whether it has roots, and the answer to
`roots/list`. -/
abbrev WorkspaceRoots := Option (Except Error (List String))

variable (machine : Machine)

/-- The loop over the roots, with the keys and the directories without one so far. -/
def LocalStore.resolveRoots (store : LocalStore) (resolved unresolved : List String) :
    List String → Except Error (List String × List String) × LocalStore
  | [] => (.ok (resolved, unresolved), store)
  | uri :: rest =>
      match rootDirectory machine uri with
      | .error error => (.error error, store)
      | .ok directory =>
          match store.resolveDirectory machine directory with
          | (.key key, resolving) => resolving.resolveRoots (resolved ++ [key]) unresolved rest
          | (.noOrigin, resolving) =>
              resolving.resolveRoots resolved (unresolved ++ [directory]) rest
          | (.failed error, resolving) => (.error (.msg error), resolving)

/-- A failed save is only reported, on the error output. -/
def LocalStore.repoKeyFor (store : LocalStore) (diskError : Option Error) (file : Option State)
    (directory : String) : Except Error String × LocalStore × Option State :=
  let (resolution, resolving) := store.resolveDirectory machine directory
  (resolution.intoKey directory, (resolving.saveIfDirty diskError file).2)

def LocalStore.repoKeyFromRoots (store : LocalStore) (diskError : Option Error)
    (file : Option State) (uris : List String) :
    Except Error String × LocalStore × Option State :=
  match store.resolveRoots machine [] [] uris with
  | (.ok (resolved, unresolved), resolving) =>
      (oneRepositoryKey resolved unresolved, (resolving.saveIfDirty diskError file).2)
  | (.error error, resolving) => (.error error, resolving, file)

def LocalStore.omittedRepoKey (store : LocalStore) (diskError : Option Error)
    (file : Option State) (launchDir : String) (roots : WorkspaceRoots) :
    Except Error String × LocalStore × Option State :=
  match roots with
  | some (.error error) => (.error error, store, file)
  | some (.ok (uri :: rest)) => store.repoKeyFromRoots machine diskError file (uri :: rest)
  | some (.ok []) => store.repoKeyFor machine diskError file launchDir
  | none => store.repoKeyFor machine diskError file launchDir

def LocalStore.requestRepoKey (store : LocalStore) (diskError : Option Error)
    (file : Option State) (launchDir : String) (cwd : Option String) (roots : WorkspaceRoots) :
    Except Error String × LocalStore × Option State :=
  match cwd with
  | some cwd =>
      store.repoKeyFor machine diskError file (scopeDirectory machine (some cwd) launchDir)
  | none => store.omittedRepoKey machine diskError file launchDir roots

/-- `requested_repo_key`, of the `index` command. -/
def LocalStore.requestedRepoKey (store : LocalStore) (cwd : Option String) (processDir : String) :
    Except Error String × LocalStore :=
  let directory := scopeDirectory machine cwd processDir
  if machine.isDir directory then
    let (resolution, resolving) := store.resolveDirectory machine directory
    (resolution.intoKey directory, resolving)
  else (.error (.msg s!"{directory} is not a directory"), store)

end Definitions

section Choice

variable {resolved others unresolved : List String} {key : String}

theorem sortedKeys_strict (keys : List String) :
    ((keys.insertionSort (· ≤ ·)).dedup).Pairwise fun one other => one < other := by
  have sorted := (List.pairwise_insertionSort (· ≤ ·) keys).sublist (List.dedup_sublist _)
  have distinct := List.nodup_dedup (keys.insertionSort (· ≤ ·))
  exact (sorted.and distinct).imp fun both => lt_of_le_of_ne both.1 both.2

theorem mem_sortedKeys {keys : List String} :
    key ∈ (keys.insertionSort (· ≤ ·)).dedup ↔ key ∈ keys := by
  rw [List.mem_dedup, List.mem_insertionSort]

theorem oneRepositoryKey_ok_iff : oneRepositoryKey resolved unresolved = .ok key ↔
    key ∈ resolved ∧ ∀ other ∈ resolved, other = key := by
  have known : ∀ other, other ∈ (resolved.insertionSort (· ≤ ·)).dedup ↔ other ∈ resolved :=
    fun _ => mem_sortedKeys
  have ordered := sortedKeys_strict resolved
  unfold oneRepositoryKey
  cases resolved with
  | nil => simp
  | cons first rest =>
      rw [if_neg (by simp)]
      revert known ordered
      generalize ((first :: rest).insertionSort (· ≤ ·)).dedup = keys
      intro known ordered
      match keys with
      | [] => exact absurd ((known first).mpr List.mem_cons_self) List.not_mem_nil
      | [single] =>
          simp only [List.mem_singleton] at known
          simp only [Except.ok.injEq, ← known]
          exact ⟨fun same => ⟨same.symm, fun _ other => other.trans same⟩, fun held => held.1.symm⟩
      | one :: other :: more =>
          simp only [reduceCtorEq, ← known, false_iff, not_and]
          intro _ all
          have below : one < other := (List.pairwise_cons.mp ordered).1 other List.mem_cons_self
          have first := all one List.mem_cons_self
          have second := all other (List.mem_cons_of_mem _ List.mem_cons_self)
          exact absurd (first.trans second.symm) below.ne

/-- The order of the roots and their repetitions do not matter. -/
theorem oneRepositoryKey_congr (same : ∀ key, key ∈ resolved ↔ key ∈ others)
    (some : key ∈ resolved) (unresolved missing : List String) :
    oneRepositoryKey resolved unresolved = oneRepositoryKey others missing := by
  have keys : (resolved.insertionSort (· ≤ ·)).dedup = (others.insertionSort (· ≤ ·)).dedup := by
    refine @eq_of_ordered_keys _ _ _ id _ _ (sortedKeys_strict _) (sortedKeys_strict _) ?_
    intro other
    rw [mem_sortedKeys, mem_sortedKeys, same]
  have one : resolved.isEmpty = false := by
    simpa using List.ne_nil_of_mem some
  have both : others.isEmpty = false := by
    simpa using List.ne_nil_of_mem ((same key).mp some)
  unfold oneRepositoryKey
  rw [one, both, keys]
  rfl

end Choice

section Roots

variable {machine : Machine} {store base : LocalStore} {resolved unresolved uris : List String}
  {uri key : String}

/-- Why a request stops at a root, if it does. -/
def LocalStore.rootError (store : LocalStore) (machine : Machine) (uri : String) : Option Error :=
  match rootDirectory machine uri with
  | .error error => some error
  | .ok directory =>
      match store.resolution machine directory with
      | .failed error => some (.msg error)
      | _ => none

/-- The repository of a root, if it has one. -/
def LocalStore.rootKey (store : LocalStore) (machine : Machine) (uri : String) : Option String :=
  match rootDirectory machine uri with
  | .error _ => none
  | .ok directory =>
      match store.resolution machine directory with
      | .key key => some key
      | _ => none

/-- The directory of a root without a repository. -/
def LocalStore.rootWithout (store : LocalStore) (machine : Machine) (uri : String) :
    Option String :=
  match rootDirectory machine uri with
  | .error _ => none
  | .ok directory =>
      match store.resolution machine directory with
      | .noOrigin => some directory
      | _ => none

/-- What a request concludes from the roots, each judged by the store it starts from. -/
def LocalStore.rootsAnswer (store : LocalStore) (machine : Machine) (uris : List String) :
    Except Error String :=
  match uris.findSome? (store.rootError machine) with
  | some error => .error error
  | none => oneRepositoryKey (uris.filterMap (store.rootKey machine))
      (uris.filterMap (store.rootWithout machine))

/-- What an earlier root caches does not change what a later one resolves to. -/
theorem resolveRoots_fst (same : SameOrigins machine base store)
    (resolved unresolved : List String) :
    (store.resolveRoots machine resolved unresolved uris).1 =
      match uris.findSome? (base.rootError machine) with
      | some error => .error error
      | none => .ok (resolved ++ uris.filterMap (base.rootKey machine),
          unresolved ++ uris.filterMap (base.rootWithout machine)) := by
  induction uris generalizing store resolved unresolved with
  | nil => simp [LocalStore.resolveRoots]
  | cons uri rest ih =>
      cases located : rootDirectory machine uri with
      | error error =>
          have stops : base.rootError machine uri = some error := by
            simp only [LocalStore.rootError, located]
          simp only [LocalStore.resolveRoots, located, List.findSome?_cons, stops]
      | ok directory =>
          have answered : (store.resolveDirectory machine directory).1 =
              base.resolution machine directory := by
            rw [resolveDirectory_fst, same]
          have next := same.trans (resolveDirectory_same machine store directory)
          simp only [LocalStore.resolveRoots, located, List.findSome?_cons, List.filterMap_cons,
            LocalStore.rootError, LocalStore.rootKey, LocalStore.rootWithout, ← answered]
          revert next
          generalize store.resolveDirectory machine directory = outcome
          intro next
          obtain ⟨resolution, resolving⟩ := outcome
          cases resolution with
          | key key =>
              dsimp only
              rw [ih next]
              simp only [List.append_assoc, List.singleton_append]
          | noOrigin =>
              dsimp only
              rw [ih next]
              simp only [List.append_assoc, List.singleton_append]
          | failed error => rfl

theorem repoKeyFromRoots_fst (machine : Machine) (store : LocalStore) (diskError : Option Error)
    (file : Option State) (uris : List String) :
    (store.repoKeyFromRoots machine diskError file uris).1 = store.rootsAnswer machine uris := by
  have answered := @resolveRoots_fst machine store store uris (.refl machine store) [] []
  unfold LocalStore.repoKeyFromRoots LocalStore.rootsAnswer
  revert answered
  generalize store.resolveRoots machine [] [] uris = outcome
  intro answered
  obtain ⟨roots, resolving⟩ := outcome
  cases stopped : uris.findSome? (store.rootError machine) with
  | some error =>
      rw [stopped] at answered
      cases answered
      rfl
  | none =>
      rw [stopped] at answered
      cases answered
      rfl

theorem rootsAnswer_ok_iff : store.rootsAnswer machine uris = .ok key ↔
    (∀ uri ∈ uris, store.rootError machine uri = none) ∧
      (∃ uri ∈ uris, store.rootKey machine uri = some key) ∧
        ∀ uri ∈ uris, ∀ other, store.rootKey machine uri = some other → other = key := by
  unfold LocalStore.rootsAnswer
  cases stopped : uris.findSome? (store.rootError machine) with
  | some error =>
      obtain ⟨uri, member, fails⟩ := List.exists_of_findSome?_eq_some stopped
      simp only [reduceCtorEq, false_iff, not_and]
      intro none
      rw [none uri member] at fails
      cases fails
  | none =>
      dsimp only
      rw [oneRepositoryKey_ok_iff, List.mem_filterMap]
      constructor
      · intro chosen
        refine ⟨List.findSome?_eq_none_iff.mp stopped, chosen.1, ?_⟩
        intro uri member other keyed
        exact chosen.2 other (List.mem_filterMap.mpr ⟨uri, member, keyed⟩)
      · intro held
        refine ⟨held.2.1, ?_⟩
        intro other among
        obtain ⟨uri, member, keyed⟩ := List.mem_filterMap.mp among
        exact held.2.2 uri member other keyed

theorem rootsAnswer_congr {others : List String} (same : ∀ uri, uri ∈ others ↔ uri ∈ uris)
    (usable : ∀ uri ∈ uris, store.rootError machine uri = none)
    (keyed : ∃ uri ∈ uris, (store.rootKey machine uri).isSome = true) :
    store.rootsAnswer machine others = store.rootsAnswer machine uris := by
  obtain ⟨uri, member, some⟩ := keyed
  obtain ⟨key, known⟩ := Option.isSome_iff_exists.mp some
  have quiet : uris.findSome? (store.rootError machine) = none :=
    List.findSome?_eq_none_iff.mpr usable
  have also : others.findSome? (store.rootError machine) = none :=
    List.findSome?_eq_none_iff.mpr fun uri listed => usable uri ((same uri).mp listed)
  unfold LocalStore.rootsAnswer
  rw [quiet, also]
  refine @oneRepositoryKey_congr _ _ key ?_ ?_ _ _
  · intro other
    simp only [List.mem_filterMap, same]
  · exact List.mem_filterMap.mpr ⟨uri, (same uri).mpr member, known⟩

/-- A root selects as an explicit directory what it contributes to the workspace. -/
theorem repoKeyFor_root (machine : Machine) (store : LocalStore) (diskError : Option Error)
    (file : Option State) (launchDir : String) (known : store.rootKey machine uri = some key) :
    (store.repoKeyFor machine diskError file
      (scopeDirectory machine (some uri) launchDir)).1 = .ok key := by
  unfold LocalStore.rootKey rootDirectory at known
  dsimp only at known
  unfold LocalStore.repoKeyFor scopeDirectory
  dsimp only
  rw [resolveDirectory_fst]
  by_cases absolute : isAbsolute (normalizeCwd machine uri) = true
  · rw [if_pos absolute]
    split at known
    · cases known
    · rename_i directory located
      split at located
      · cases located
      · cases located
        split at known
        · rename_i found resolved
          cases known
          rw [resolved]
          rfl
        · cases known
  · rw [if_pos (by simp [absolute])] at known
    simp only [reduceCtorEq] at known

/-- The answer to a request without `cwd` from a client with these roots. -/
def LocalStore.workspaceKey (store : LocalStore) (machine : Machine) (diskError : Option Error)
    (file : Option State) (launchDir : String) (uris : List String) : Except Error String :=
  (store.requestRepoKey machine diskError file launchDir none (some (.ok uris))).1

theorem workspaceKey_eq (machine : Machine) (store : LocalStore) (diskError : Option Error)
    (file : Option State) (launchDir uri : String) (rest : List String) :
    store.workspaceKey machine diskError file launchDir (uri :: rest) =
      store.rootsAnswer machine (uri :: rest) :=
  repoKeyFromRoots_fst machine store diskError file (uri :: rest)

/-- The repository of an omitted `cwd`: which one it is, when there is one, and which root
decides when there is none. -/
theorem workspace_selects (machine : Machine) (store : LocalStore) (diskError : Option Error)
    (file : Option State) (launchDir first : String) (rest : List String) :
    (∀ key, store.workspaceKey machine diskError file launchDir (first :: rest) = .ok key ↔
      (∀ uri ∈ first :: rest, store.rootError machine uri = none) ∧
        (∃ uri ∈ first :: rest, store.rootKey machine uri = some key) ∧
          ∀ uri ∈ first :: rest, ∀ other, store.rootKey machine uri = some other → other = key) ∧
    (∀ before uri after error, first :: rest = before ++ uri :: after →
      (∀ earlier ∈ before, store.rootError machine earlier = none) →
        store.rootError machine uri = some error →
          store.workspaceKey machine diskError file launchDir (first :: rest) = .error error) ∧
    (∀ others, (∀ uri, uri ∈ others ↔ uri ∈ first :: rest) →
      (∀ uri ∈ first :: rest, store.rootError machine uri = none) →
        (∃ uri ∈ first :: rest, (store.rootKey machine uri).isSome = true) →
          store.workspaceKey machine diskError file launchDir others =
            store.workspaceKey machine diskError file launchDir (first :: rest)) ∧
    (∀ key, store.workspaceKey machine diskError file launchDir (first :: rest) = .ok key →
      ∀ uri ∈ first :: rest, ∀ roots, (store.rootWithout machine uri).isSome = true ∨
        (store.requestRepoKey machine diskError file launchDir (some uri) roots).1 = .ok key) := by
  refine ⟨?_, ?_, ?_, ?_⟩
  · intro key
    rw [workspaceKey_eq]
    exact rootsAnswer_ok_iff
  · intro before uri after error split quiet stops
    rw [workspaceKey_eq]
    have found : (first :: rest).findSome? (store.rootError machine) = some error := by
      rw [split, List.findSome?_append, List.findSome?_eq_none_iff.mpr quiet, Option.none_or,
        List.findSome?_cons, stops]
    unfold LocalStore.rootsAnswer
    rw [found]
  · intro others same usable keyed
    cases others with
    | nil => exact absurd ((same first).mpr List.mem_cons_self) List.not_mem_nil
    | cons uri uris =>
        rw [workspaceKey_eq, workspaceKey_eq]
        exact rootsAnswer_congr same usable keyed
  · intro key chosen uri member roots
    rw [workspaceKey_eq, rootsAnswer_ok_iff] at chosen
    obtain ⟨usable, -, sole⟩ := chosen
    have quiet := usable uri member
    cases known : store.rootKey machine uri with
    | some other =>
        refine .inr ?_
        cases sole uri member other known
        exact repoKeyFor_root machine store diskError file launchDir known
    | none =>
        refine .inl ?_
        unfold LocalStore.rootError at quiet
        unfold LocalStore.rootKey at known
        unfold LocalStore.rootWithout
        split at quiet
        · cases quiet
        · rename_i directory located
          rw [located] at known
          dsimp only at quiet known ⊢
          cases resolved : store.resolution machine directory with
          | key found =>
              rw [resolved] at known
              cases known
          | noOrigin => rfl
          | failed error =>
              rw [resolved] at quiet
              cases quiet

end Roots

end AgentTranscript
