import AgentTranscript.Local.StoreProperties

/-! What one reload reads, writes and reports. -/

set_option autoImplicit false

namespace AgentTranscript

section Origins

variable (machine : Machine) (store : LocalStore) (dir : String)

/-- What `git` answers for a directory, as the cache keeps it. -/
def Machine.resolution : RepoResolution :=
  match machine.originOf dir with
  | .ok key => .key key
  | .error .gitMissing => .noOrigin
  | .error (.noOrigin _) => .noOrigin
  | .error (.invalid message) => .failed message

/-- The cached entry of a directory, unless it is a failure that has expired. -/
def LocalStore.cached : Option RepoEntry :=
  (store.state.repos.get? dir).filter fun entry =>
    entry.repoKey.isSome || machine.now - entry.checkedAt < repoRetry

def LocalStore.resolution : RepoResolution :=
  ((store.cached machine dir).map (·.resolution)).getD (machine.resolution dir)

/-- Where a working directory leaves a session: its repository, or why it has none. -/
def LocalStore.origin (cwd : Option String) : SessionRepo :=
  (store.resolveRepo machine cwd).1

theorem RepoEntry.of_resolution (now : DateTime) (resolution : RepoResolution) :
    (RepoEntry.of now resolution).resolution = resolution := by
  cases resolution <;> rfl

theorem resolveDirectory_fst :
    (store.resolveDirectory machine dir).1 = store.resolution machine dir := by
  unfold LocalStore.resolveDirectory LocalStore.resolution LocalStore.cached
  dsimp only
  cases (store.state.repos.get? dir).filter fun entry =>
    entry.repoKey.isSome || machine.now - entry.checkedAt < repoRetry <;> rfl

theorem resolveDirectory_repos :
    (store.resolveDirectory machine dir).2.state.repos =
      if (store.cached machine dir).isSome then store.state.repos
      else store.state.repos.insert dir (.of machine.now (machine.resolution dir)) := by
  unfold LocalStore.resolveDirectory LocalStore.cached
  dsimp only
  cases (store.state.repos.get? dir).filter fun entry =>
    entry.repoKey.isSome || machine.now - entry.checkedAt < repoRetry <;> rfl

end Origins

section Same

variable {machine : Machine} {store before after last : LocalStore}

/-- Directories resolve alike in two stores of one diff. -/
def SameOrigins (machine : Machine) (before after : LocalStore) : Prop :=
  ∀ dir, after.resolution machine dir = before.resolution machine dir

theorem SameOrigins.refl (machine : Machine) (store : LocalStore) :
    SameOrigins machine store store :=
  fun _ => rfl

theorem SameOrigins.trans (first : SameOrigins machine before after)
    (second : SameOrigins machine after last) : SameOrigins machine before last :=
  fun dir => (second dir).trans (first dir)

theorem SameOrigins.of_repos (same : after.state.repos = before.state.repos) :
    SameOrigins machine before after := by
  intro dir
  rw [LocalStore.resolution, LocalStore.cached, same]
  rfl

theorem SameOrigins.origin (same : SameOrigins machine before after) (cwd : Option String) :
    after.origin machine cwd = before.origin machine cwd := by
  unfold LocalStore.origin LocalStore.resolveRepo
  cases cwd.filter fun cwd => !cwd.isEmpty with
  | none => rfl
  | some cwd =>
      dsimp only
      rw [resolveDirectory_fst, resolveDirectory_fst, same]
      split
      · split <;> rfl
      · rfl

/-- What a directory resolved to is what it resolves to again at the same time. -/
theorem resolveDirectory_same (machine : Machine) (store : LocalStore) (dir : String) :
    SameOrigins machine store (store.resolveDirectory machine dir).2 := by
  intro other
  unfold LocalStore.resolution
  have repos := resolveDirectory_repos machine store dir
  cases cached : store.cached machine dir with
  | some entry =>
      rw [cached, Option.isSome_some, if_pos rfl] at repos
      rw [LocalStore.cached, repos]
      rfl
  | none =>
      rw [cached, Option.isSome_none, if_neg Bool.false_ne_true] at repos
      rw [LocalStore.cached, repos, SortedMap.get?_insert]
      by_cases same : other = dir
      · subst same
        have expires : 0 < repoRetry := by decide
        have kept : Option.filter (fun entry : RepoEntry => entry.repoKey.isSome ||
            decide (machine.now - entry.checkedAt < repoRetry))
              (some (RepoEntry.of machine.now (machine.resolution other))) =
            some (RepoEntry.of machine.now (machine.resolution other)) := by
          rw [Option.filter_some, if_pos]
          simp [RepoEntry.of, expires]
        rw [if_pos rfl, kept, cached]
        exact RepoEntry.of_resolution _ _
      · rw [if_neg same]
        rfl

theorem resolveRepo_same (machine : Machine) (store : LocalStore) (cwd : Option String) :
    SameOrigins machine store (store.resolveRepo machine cwd).2 := by
  unfold LocalStore.resolveRepo
  split
  · exact .refl machine store
  · dsimp only
    split
    · split <;> exact resolveDirectory_same machine store _
    · exact .refl machine store

end Same

section Reading

variable [HarnessNames] [DocumentCodec]

/-- The record that reading a source gives, unless the read fails transiently. -/
def LocalStore.reading (machine : Machine) (store : LocalStore) (harness : HarnessId)
    (source fingerprint : String) (updatedAt : Option DateTime) : Option SourceRecord :=
  match machine.load harness source with
  | .ok transcript => some (loadedRecord harness source fingerprint updatedAt transcript
      (store.origin machine (Info.of transcript.metadata).cwd))
  | .error (.transient _) => none
  | .error (.broken _) => some (brokenRecord machine.now harness source fingerprint updatedAt)

variable {machine : Machine} {store before after : LocalStore} {harness other : HarnessId}
  {source last fingerprint : String} {updatedAt : Option DateTime} {record : SourceRecord}

theorem SameOrigins.reading (same : SameOrigins machine before after) :
    after.reading machine harness source fingerprint updatedAt =
      before.reading machine harness source fingerprint updatedAt := by
  unfold LocalStore.reading
  cases machine.load harness source with
  | ok transcript =>
      dsimp only
      rw [same.origin]
  | error failure => cases failure <;> rfl

theorem reading_eq_none : store.reading machine harness source fingerprint updatedAt = none ↔
    Transient machine harness source := by
  unfold LocalStore.reading Transient
  cases machine.load harness source with
  | ok => simp
  | error failure => cases failure <;> simp

theorem reading_fields
    (read : store.reading machine harness source fingerprint updatedAt = some record) :
    record.harness = harness ∧ record.source = source ∧ record.fingerprint = fingerprint ∧
      record.freshness.updatedAt = updatedAt := by
  unfold LocalStore.reading at read
  split at read
  · cases read
    exact ⟨rfl, rfl, rfl, rfl⟩
  · cases read
  · cases read
    exact ⟨rfl, rfl, rfl, rfl⟩

/-- What a reload makes of a store, given what it reads. -/
structure Reloaded (machine : Machine) (harness : HarnessId) (source : String)
    (read : Option SourceRecord) (before after : LocalStore) : Prop where
  sources : after.state.sources = read.elim before.state.sources fun record =>
    before.state.sources.insert (sourceKey harness source) record
  dbFingerprints : after.state.dbFingerprints = before.state.dbFingerprints
  origins : SameOrigins machine before after
  changedRepos : after.report.changedRepos = before.report.changedRepos ∪
    read.elim ∅ fun record => if record.state = .ready then record.repoKey.toFinset else ∅
  loaded : after.report.loaded = before.report.loaded +
    if (machine.load harness source).isOk then 1 else 0

/-- A store whose report counts what another one's does, apart from failures. -/
structure Counts (before after : LocalStore) : Prop where
  state : after.state = before.state
  changedRepos : after.report.changedRepos = before.report.changedRepos
  loaded : after.report.loaded = before.report.loaded

omit [DocumentCodec] in
theorem reportRepo_counts (store : LocalStore) (harness : HarnessId) (source : String)
    (alreadyPending : Bool) (repo : SessionRepo) :
    Counts store (store.reportRepo harness source alreadyPending repo) := by
  cases repo <;> unfold LocalStore.reportRepo <;> dsimp only [LocalStore.failSource] <;>
    first | exact ⟨rfl, rfl, rfl⟩ | (split <;> exact ⟨rfl, rfl, rfl⟩)

omit [HarnessNames] [DocumentCodec] in
theorem resolveRepo_report (machine : Machine) (store : LocalStore) (cwd : Option String) :
    (store.resolveRepo machine cwd).2.report = store.report := by
  have kept : ∀ dir, (store.resolveDirectory machine dir).2.report = store.report := by
    intro dir
    unfold LocalStore.resolveDirectory
    dsimp only
    split <;> rfl
  unfold LocalStore.resolveRepo
  split
  · rfl
  · dsimp only
    split
    · split <;> exact kept _
    · rfl

omit [HarnessNames] [DocumentCodec] in
theorem noteReady_report (store : LocalStore) (record : SourceRecord) :
    (store.noteReady record).report.changedRepos = store.report.changedRepos ∪
        (if record.state = .ready then record.repoKey.toFinset else ∅) ∧
      (store.noteReady record).report.loaded = store.report.loaded := by
  unfold LocalStore.noteReady
  split <;> simp

theorem reload_spec (machine : Machine) (store : LocalStore) (harness : HarnessId)
    (source fingerprint : String) (updatedAt : Option DateTime) :
    Reloaded machine harness source (store.reading machine harness source fingerprint updatedAt)
      store (store.reload machine harness source fingerprint updatedAt) := by
  unfold LocalStore.reload LocalStore.reading
  cases loaded : machine.load harness source with
  | ok transcript =>
      have kept := resolveRepo_kept machine store (Info.of transcript.metadata).cwd
      have origins := resolveRepo_same machine store (Info.of transcript.metadata).cwd
      have quiet := resolveRepo_report machine store (Info.of transcript.metadata).cwd
      dsimp only [LocalStore.origin]
      generalize (store.state.sources.get? (sourceKey harness source)).any _ = alreadyPending
      generalize store.resolveRepo machine (Info.of transcript.metadata).cwd = resolved at *
      have reported := reportRepo_counts resolved.2 harness source alreadyPending resolved.1
      have identified : Counts resolved.2 (if transcript.metadata.id.isEmpty then
          (resolved.2.reportRepo harness source alreadyPending resolved.1).failSource harness source
            "session id is empty"
          else resolved.2.reportRepo harness source alreadyPending resolved.1) := by
        split
        · exact ⟨reported.state, reported.changedRepos, reported.loaded⟩
        · exact reported
      revert identified
      generalize (if transcript.metadata.id.isEmpty then _ else _ : LocalStore) = next
      intro identified
      refine ⟨?_, ?_, ?_, ?_, ?_⟩
      · simp only [LocalStore.insert, noteReady_state, identified.state, kept.1, Option.elim_some]
      · simp only [LocalStore.insert, noteReady_state, identified.state, kept.2]
      · apply origins.trans (.of_repos _)
        simp only [LocalStore.insert, noteReady_state, identified.state]
      · simp only [LocalStore.insert, noteReady_report, identified.changedRepos, quiet,
          Option.elim_some]
      · simp only [LocalStore.insert, noteReady_report, identified.loaded, quiet, loaded,
          Except.isOk, Except.toBool, if_true]
  | error failure =>
      cases failure with
      | transient message =>
          exact ⟨rfl, rfl, .of_repos rfl, by simp [LocalStore.failSource, LocalStore.fail],
            by simp [loaded, LocalStore.failSource, LocalStore.fail, Except.isOk, Except.toBool]⟩
      | broken message =>
          exact ⟨rfl, rfl, .of_repos rfl,
            by simp [brokenRecord, LocalStore.insert, LocalStore.failSource, LocalStore.fail],
            by simp [loaded, LocalStore.insert, LocalStore.failSource, LocalStore.fail, Except.isOk,
              Except.toBool]⟩

end Reading

end AgentTranscript
