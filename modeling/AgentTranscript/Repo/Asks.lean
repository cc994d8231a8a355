import AgentTranscript.Library.ExpiringCache
import AgentTranscript.Local.Steps
import AgentTranscript.Repo.Scope

/-!
How often `git` is asked for the origin of a directory. Requests, the `index` command and
the diffs of local sessions share one cache of the answers.
-/

set_option autoImplicit false

namespace AgentTranscript

open ExpiringCache

section Definitions

/-- A repository is kept for good, any other answer for `REPO_RETRY`. -/
def originPolicy : Policy RepoResolution where
  settled := fun resolution =>
    match resolution with
    | .key _ => true
    | _ => false
  lifetime := repoRetry

def RepoEntry.answered (entry : RepoEntry) : Entry RepoResolution where
  answer := entry.resolution
  askedAt := entry.checkedAt

def LocalStore.origins (store : LocalStore) (dir : String) : Option (Entry RepoResolution) :=
  (store.state.repos.get? dir).map RepoEntry.answered

def LocalStore.cache (store : LocalStore) (log : List (Question String RepoResolution)) :
    Cache String RepoResolution where
  entries := store.origins
  log := log

variable (machine : Machine)

/-- The directories that are looked up, in order, first by a session, then by a diff. -/
def repoConsults (cwd : Option String) : List String :=
  match cwd.filter fun cwd => !cwd.isEmpty with
  | none => []
  | some cwd => if machine.isDir (normalizeCwd machine cwd) then [normalizeCwd machine cwd] else []

def LocalStore.rootsConsults : LocalStore → List String → List String
  | _, [] => []
  | store, uri :: rest =>
      match rootDirectory machine uri with
      | .error _ => []
      | .ok directory =>
          match store.resolveDirectory machine directory with
          | (.failed _, _) => [directory]
          | (_, resolving) => directory :: resolving.rootsConsults rest

def LocalStore.requestConsults (store : LocalStore) (launchDir : String) (cwd : Option String)
    (roots : WorkspaceRoots) : List String :=
  match cwd, roots with
  | some cwd, _ => [scopeDirectory machine (some cwd) launchDir]
  | none, some (.error _) => []
  | none, some (.ok (uri :: rest)) => store.rootsConsults machine (uri :: rest)
  | none, some (.ok []) => [launchDir]
  | none, none => [launchDir]

def requestedConsults (cwd : Option String) (processDir : String) : List String :=
  if machine.isDir (scopeDirectory machine cwd processDir) then
    [scopeDirectory machine cwd processDir]
  else []

variable [HarnessNames] [DocumentCodec]

def reloadConsults (harness : HarnessId) (source : String) : List String :=
  match machine.load harness source with
  | .ok transcript => repoConsults machine (Info.of transcript.metadata).cwd
  | .error _ => []

def LocalStore.foundConsults (harness : HarnessId) : LocalStore → List Found → List String
  | _, [] => []
  | store, entry :: rest =>
      (if store.upToDate harness entry then [] else reloadConsults machine harness entry.source) ++
        LocalStore.foundConsults harness (store.reconsider machine harness entry.source
          entry.fingerprint entry.updatedAt) rest

def LocalStore.siteConsults (store : LocalStore) (site : Site) : List String :=
  if store.scans machine site then store.foundConsults machine site.harness (site.found machine)
  else []

def LocalStore.sitesConsults : LocalStore → List Site → List String
  | _, [] => []
  | store, site :: rest =>
      store.siteConsults machine site ++
        LocalStore.sitesConsults (store.scanSite machine site) rest

def LocalStore.retryConsults (store : LocalStore) (key : String) : List String :=
  match store.state.sources.get? key with
  | none => []
  | some record =>
      repoConsults machine record.info.cwd ++
        match store.origin machine record.info.cwd with
        | .key _ => reloadConsults machine record.harness record.source
        | _ => []

def LocalStore.pendingConsults : LocalStore → List String → List String
  | _, [] => []
  | store, key :: rest =>
      store.retryConsults machine key ++
        LocalStore.pendingConsults (store.resolvePendingKey machine key) rest

def LocalStore.diffConsults (store : LocalStore) : List String :=
  store.opened.sitesConsults machine (sites machine) ++
    (store.scanned machine).pendingConsults machine (store.scanned machine).pendingKeys

end Definitions

section Follows

variable {machine : Machine} {before middle after store : LocalStore} {dirs more : List String}
  {dir : String} {log : List (Question String RepoResolution)}

/-- One store comes from another by looking up these directories, as far as origins go. -/
def Follows (machine : Machine) (before : LocalStore) (dirs : List String)
    (after : LocalStore) : Prop :=
  ∀ log, ((before.cache log).consultAll originPolicy machine.now machine.resolution dirs).entries =
    after.origins

theorem originPolicy_settled (entry : RepoEntry) :
    originPolicy.settled entry.resolution = entry.repoKey.isSome := by
  obtain ⟨repoKey, checkedAt, error⟩ := entry
  cases repoKey with
  | some key => rfl
  | none => cases error <;> rfl

theorem originPolicy_fresh (now : DateTime) (entry : RepoEntry) :
    originPolicy.fresh now entry.answered =
      (entry.repoKey.isSome || decide (now - entry.checkedAt < repoRetry)) := by
  rw [Policy.fresh, RepoEntry.answered, originPolicy_settled]
  rfl

theorem cache_known (machine : Machine) (store : LocalStore)
    (log : List (Question String RepoResolution)) (dir : String) :
    (store.cache log).known originPolicy machine.now dir =
      (store.cached machine dir).map RepoEntry.answered := by
  unfold Cache.known LocalStore.cached LocalStore.cache LocalStore.origins
  dsimp only
  cases store.state.repos.get? dir with
  | none => rfl
  | some entry =>
      simp only [Option.map_some, Option.filter_some, originPolicy_fresh]
      split <;> rfl

theorem cache_answer (machine : Machine) (store : LocalStore)
    (log : List (Question String RepoResolution)) (dir : String) :
    (store.cache log).answer originPolicy machine.now machine.resolution dir =
      store.resolution machine dir := by
  rw [Cache.answer, cache_known, LocalStore.resolution]
  cases store.cached machine dir <;> rfl

theorem Follows.of_repos (same : after.state.repos = before.state.repos) :
    Follows machine before [] after := by
  intro log
  unfold LocalStore.origins
  rw [same]
  rfl

theorem Follows.trans (first : Follows machine before dirs middle)
    (second : Follows machine middle more after) : Follows machine before (dirs ++ more) after := by
  intro log
  unfold Cache.consultAll
  rw [List.foldl_append]
  have reached := first log
  have next := second ((before.cache log).consultAll originPolicy machine.now machine.resolution
    dirs).log
  unfold LocalStore.cache at next
  rw [← reached] at next
  exact next

theorem resolveDirectory_follows (machine : Machine) (store : LocalStore) (dir : String) :
    Follows machine store [dir] (store.resolveDirectory machine dir).2 := by
  intro log
  have repos := resolveDirectory_repos machine store dir
  simp only [Cache.consultAll, List.foldl_cons, List.foldl_nil, Cache.consult, cache_known,
    Option.isSome_map]
  cases known : (store.cached machine dir).isSome with
  | true =>
      rw [known, if_pos rfl] at repos
      rw [if_pos rfl]
      unfold LocalStore.origins
      rw [repos]
      rfl
  | false =>
      rw [known, if_neg Bool.false_ne_true] at repos
      rw [if_neg Bool.false_ne_true]
      funext other
      dsimp only [Cache.ask, LocalStore.cache, LocalStore.origins]
      rw [repos, SortedMap.get?_insert, Function.update_apply]
      by_cases same : other = dir
      · rw [if_pos same, if_pos same, Option.map_some, RepoEntry.answered,
          RepoEntry.of_resolution]
        rfl
      · rw [if_neg same, if_neg same]
        rfl

theorem resolveRepo_follows (machine : Machine) (store : LocalStore) (cwd : Option String) :
    Follows machine store (repoConsults machine cwd) (store.resolveRepo machine cwd).2 := by
  unfold repoConsults LocalStore.resolveRepo
  cases cwd.filter fun cwd => !cwd.isEmpty with
  | none => exact .of_repos rfl
  | some cwd =>
      dsimp only
      by_cases present : machine.isDir (normalizeCwd machine cwd) = true
      · rw [if_pos present, if_pos present]
        split <;> exact resolveDirectory_follows machine store _
      · rw [if_neg present, if_neg present]
        exact .of_repos rfl

theorem Follows.frame (first : Follows machine before dirs middle)
    (same : after.state.repos = middle.state.repos) : Follows machine before dirs after := by
  have both := first.trans (.of_repos same)
  rw [List.append_nil] at both
  exact both

theorem resolveRoots_follows (resolved unresolved uris : List String) :
    Follows machine store (store.rootsConsults machine uris)
      (store.resolveRoots machine resolved unresolved uris).2 := by
  induction uris generalizing store resolved unresolved with
  | nil => exact .of_repos rfl
  | cons uri rest ih =>
      unfold LocalStore.rootsConsults LocalStore.resolveRoots
      cases rootDirectory machine uri with
      | error error => exact .of_repos rfl
      | ok directory =>
          have found := resolveDirectory_follows machine store directory
          revert found
          dsimp only
          generalize store.resolveDirectory machine directory = outcome
          intro found
          obtain ⟨resolution, resolving⟩ := outcome
          cases resolution with
          | key key => exact found.trans (ih _ _)
          | noOrigin => exact found.trans (ih _ _)
          | failed error => exact found

omit machine in
theorem saveIfDirty_state (store : LocalStore) (diskError : Option Error) (file : Option State) :
    (store.saveIfDirty diskError file).2.1.state = store.state := by
  unfold LocalStore.saveIfDirty
  split
  · rfl
  · cases diskError <;> rfl

theorem repoKeyFor_follows (machine : Machine) (store : LocalStore) (diskError : Option Error)
    (file : Option State) (directory : String) :
    Follows machine store [directory]
      (store.repoKeyFor machine diskError file directory).2.1 :=
  (resolveDirectory_follows machine store directory).frame
    (congrArg State.repos (saveIfDirty_state _ diskError file))

theorem requestRepoKey_follows (machine : Machine) (store : LocalStore)
    (diskError : Option Error) (file : Option State) (launchDir : String) (cwd : Option String)
    (roots : WorkspaceRoots) :
    Follows machine store (store.requestConsults machine launchDir cwd roots)
      (store.requestRepoKey machine diskError file launchDir cwd roots).2.1 := by
  unfold LocalStore.requestConsults LocalStore.requestRepoKey LocalStore.omittedRepoKey
  match cwd, roots with
  | some cwd, roots => exact repoKeyFor_follows machine store diskError file _
  | none, none => exact repoKeyFor_follows machine store diskError file launchDir
  | none, some (.error error) => exact .of_repos rfl
  | none, some (.ok []) => exact repoKeyFor_follows machine store diskError file launchDir
  | none, some (.ok (uri :: rest)) =>
      have resolved : Follows machine store (store.rootsConsults machine (uri :: rest))
          (store.resolveRoots machine [] [] (uri :: rest)).2 := resolveRoots_follows _ _ _
      revert resolved
      dsimp only
      unfold LocalStore.repoKeyFromRoots
      generalize store.resolveRoots machine [] [] (uri :: rest) = outcome
      intro resolved
      obtain ⟨answer, resolving⟩ := outcome
      cases answer with
      | error error => exact resolved
      | ok roots => exact resolved.frame (congrArg State.repos (saveIfDirty_state _ diskError file))

theorem requestedRepoKey_follows (machine : Machine) (store : LocalStore) (cwd : Option String)
    (processDir : String) :
    Follows machine store (requestedConsults machine cwd processDir)
      (store.requestedRepoKey machine cwd processDir).2 := by
  unfold requestedConsults LocalStore.requestedRepoKey
  dsimp only
  split
  · exact resolveDirectory_follows machine store _
  · exact .of_repos rfl

end Follows

section Diff

variable [HarnessNames] [DocumentCodec] {machine : Machine} {store : LocalStore} {site : Site}

theorem reload_follows (machine : Machine) (store : LocalStore) (harness : HarnessId)
    (source fingerprint : String) (updatedAt : Option DateTime) :
    Follows machine store (reloadConsults machine harness source)
      (store.reload machine harness source fingerprint updatedAt) := by
  unfold reloadConsults LocalStore.reload
  cases machine.load harness source with
  | ok transcript =>
      have resolved := resolveRepo_follows machine store (Info.of transcript.metadata).cwd
      revert resolved
      dsimp only
      generalize (store.state.sources.get? (sourceKey harness source)).any _ = alreadyPending
      generalize store.resolveRepo machine (Info.of transcript.metadata).cwd = outcome
      intro resolved
      apply resolved.frame
      have reported := (reportRepo_counts outcome.2 harness source alreadyPending outcome.1).state
      simp only [LocalStore.insert, noteReady_state]
      split
      · exact congrArg State.repos reported
      · exact congrArg State.repos reported
  | error failure => cases failure <;> exact .of_repos rfl

theorem consider_follows (found : List Found) :
    Follows machine store (store.foundConsults machine site.harness found)
      (store.consider machine site.harness found) := by
  induction found generalizing store with
  | nil => exact .of_repos rfl
  | cons entry rest ih =>
      rw [consider_cons]
      refine .trans ?_ ih
      rw [reconsider_eq]
      cases store.upToDate site.harness entry with
      | true => exact .of_repos rfl
      | false => exact reload_follows machine store _ _ _ _

theorem scanSite_follows (machine : Machine) (store : LocalStore) (site : Site) :
    Follows machine store (store.siteConsults machine site) (store.scanSite machine site) := by
  have scanned : Follows machine store (store.foundConsults machine site.harness
      (site.found machine)) (store.scanFound machine site (site.found machine)) :=
    (consider_follows (site.found machine)).frame (retain_repos _ _ _)
  unfold LocalStore.siteConsults
  by_cases kind : site.kind = .db
  · rcases scanSite_db machine store kind with ⟨scans, same⟩ | ⟨idle, ⟨-, same⟩ | ⟨-, -, message, same⟩⟩
    · rw [if_pos scans, same]
      exact scanned.frame rfl
    · rw [if_neg (by simp [idle]), same]
      exact .of_repos rfl
    · rw [if_neg (by simp [idle]), same]
      exact .of_repos rfl
  · rw [if_pos (scans_files kind), scanSite_files kind]
    exact scanned

theorem scanSites_follows (present : List Site) :
    Follows machine store (store.sitesConsults machine present)
      (store.scanSites machine present) := by
  induction present generalizing store with
  | nil => exact .of_repos rfl
  | cons site rest ih => exact (scanSite_follows machine store site).trans ih

theorem resolvePendingKey_follows (machine : Machine) (store : LocalStore) (key : String) :
    Follows machine store (store.retryConsults machine key)
      (store.resolvePendingKey machine key) := by
  unfold LocalStore.retryConsults LocalStore.resolvePendingKey LocalStore.origin
  cases store.state.sources.get? key with
  | none => exact .of_repos rfl
  | some record =>
      have resolved := resolveRepo_follows machine store record.info.cwd
      revert resolved
      dsimp only
      generalize store.resolveRepo machine record.info.cwd = outcome
      intro resolved
      obtain ⟨repo, resolving⟩ := outcome
      cases repo with
      | key repoKey => exact resolved.trans (reload_follows machine resolving _ _ _ _)
      | missingCwd => exact resolved.trans (.of_repos rfl)
      | unresolved reason => exact resolved.trans (.of_repos rfl)

theorem resolvePending_follows (keys : List String) :
    Follows machine store (store.pendingConsults machine keys)
      (keys.foldl (fun store key => store.resolvePendingKey machine key) store) := by
  induction keys generalizing store with
  | nil => exact .of_repos rfl
  | cons key rest ih => exact (resolvePendingKey_follows machine store key).trans ih

theorem diff_follows (machine : Machine) (store : LocalStore) :
    Follows machine store (store.diffConsults machine) (store.diff machine) := by
  have opened : Follows machine store [] store.opened := .of_repos rfl
  have scanned : Follows machine store (store.opened.sitesConsults machine (sites machine))
      (store.scanned machine) :=
    (opened.trans (scanSites_follows (sites machine))).frame (retain_repos _ _ _)
  exact scanned.trans (resolvePending_follows (store.scanned machine).pendingKeys)

end Diff

section Runs

variable [HarnessNames] [DocumentCodec]

/-- What a process does with its store, each under its lock. -/
inductive ScopeAction where
  | request (machine : Machine) (diskError : Option Error) (cwd : Option String)
      (roots : WorkspaceRoots)
  | index (machine : Machine) (cwd : Option String)
  | diff (machine : Machine) (diskError : Option Error)

def ScopeAction.machine : ScopeAction → Machine
  | .request machine _ _ _ => machine
  | .index machine _ => machine
  | .diff machine _ => machine

/-- A store, its file, and the questions that `git` was asked. -/
structure ScopeWorld where
  store : LocalStore
  file : Option State
  log : List (Question String RepoResolution)

/-- The directories that an action looks up. -/
def ScopeAction.consults (launchDir : String) (store : LocalStore) : ScopeAction → List String
  | .request machine _ cwd roots => store.requestConsults machine launchDir cwd roots
  | .index machine cwd => requestedConsults machine cwd launchDir
  | .diff machine _ => store.diffConsults machine

/-- The store and its file after an action. -/
def ScopeAction.result (launchDir : String) (store : LocalStore) (file : Option State) :
    ScopeAction → LocalStore × Option State
  | .request machine diskError cwd roots =>
      (store.requestRepoKey machine diskError file launchDir cwd roots).2
  | .index machine cwd => ((store.requestedRepoKey machine cwd launchDir).2, file)
  | .diff machine diskError => ((store.diff machine).saveIfDirty diskError file).2

def scopeStep (launchDir : String) (world : ScopeWorld) (action : ScopeAction) : ScopeWorld where
  store := (action.result launchDir world.store world.file).1
  file := (action.result launchDir world.store world.file).2
  log := ((world.store.cache world.log).consultAll originPolicy action.machine.now
    action.machine.resolution (action.consults launchDir world.store)).log

def scopeRun (launchDir : String) (store : LocalStore) (file : Option State)
    (actions : List ScopeAction) : ScopeWorld :=
  actions.foldl (scopeStep launchDir) ⟨store, file, []⟩

theorem scopeStep_cache (launchDir : String) (world : ScopeWorld) (action : ScopeAction) :
    (scopeStep launchDir world action).store.cache (scopeStep launchDir world action).log =
      (world.store.cache world.log).consultAll originPolicy action.machine.now
        action.machine.resolution (action.consults launchDir world.store) := by
  have follows : Follows action.machine world.store (action.consults launchDir world.store)
      (action.result launchDir world.store world.file).1 := by
    cases action with
    | request machine diskError cwd roots =>
        exact requestRepoKey_follows machine world.store diskError world.file launchDir cwd roots
    | index machine cwd => exact requestedRepoKey_follows machine world.store cwd launchDir
    | diff machine diskError =>
        exact (diff_follows machine world.store).frame
          (congrArg State.repos (saveIfDirty_state _ diskError world.file))
  have entries := follows world.log
  unfold scopeStep LocalStore.cache at *
  dsimp only
  rw [← entries]

/-- A question that one of these actions put to the `git` of its time. -/
def AskedBy (actions : List ScopeAction) (question : Question String RepoResolution) : Prop :=
  ∃ action ∈ actions,
    question.entry = ⟨action.machine.resolution question.key, action.machine.now⟩

theorem scopeRun_kept (launchDir : String) (store : LocalStore) (file : Option State)
    (actions : List ScopeAction) :
    Kept originPolicy store.origins ((scopeRun launchDir store file actions).store.cache
        (scopeRun launchDir store file actions).log) ∧
      ∀ question ∈ (scopeRun launchDir store file actions).log, AskedBy actions question := by
  have positive : 0 ≤ originPolicy.lifetime := by decide
  unfold scopeRun
  apply Loop.foldl_invariant (fun taken (world : ScopeWorld) =>
    Kept originPolicy store.origins (world.store.cache world.log) ∧
      ∀ question ∈ world.log, AskedBy taken question)
  · exact ⟨.initially store.origins, fun question member => by cases member⟩
  · intro taken action rest world _ given
    obtain ⟨kept, honest⟩ := given
    rw [scopeStep_cache]
    refine ⟨kept.consultAll positive _ _ _, ?_⟩
    intro question member
    rcases mem_log_consultAll member with earlier | asked
    · obtain ⟨before, among, same⟩ := honest question earlier
      exact ⟨before, List.mem_append_left _ among, same⟩
    · exact ⟨action, List.mem_append_right _ List.mem_cons_self, asked⟩

/-- `git` is asked about a directory again only once its last answer has expired, and never
after it named a repository; what is answered in between is the last answer of `git`. -/
theorem requests_ask (launchDir : String) (store : LocalStore) (file : Option State)
    (actions : List ScopeAction) :
    let final := scopeRun launchDir store file actions
    final.log.Pairwise originPolicy.Spaced ∧ (∀ question ∈ final.log, AskedBy actions question) ∧
      ∀ (machine : Machine) (dir : String), final.store.resolution machine dir =
        ((((lastEntry final.log dir).or (store.origins dir)).filter
          (originPolicy.fresh machine.now)).map (·.answer)).getD (machine.resolution dir) := by
  obtain ⟨kept, honest⟩ := scopeRun_kept launchDir store file actions
  refine ⟨kept.spaced, honest, ?_⟩
  intro machine dir
  rw [← cache_answer machine _ (scopeRun launchDir store file actions).log]
  exact kept.answer machine.now machine.resolution dir

end Runs

end AgentTranscript
