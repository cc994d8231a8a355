import AgentTranscript.Library.SortedMap
import AgentTranscript.Local.Sources

/-! The persistent records of local sessions, and the diff that brings them up to
date with the sites of the machine. -/

set_option autoImplicit false

namespace AgentTranscript

structure RepoEntry where
  repoKey : Option String
  checkedAt : DateTime
  error : Option String
  deriving DecidableEq, Repr

inductive RepoResolution where
  | key (key : String)
  | noOrigin
  | failed (message : String)
  deriving DecidableEq, Repr

inductive SessionRepo where
  | key (repoKey : String)
  | missingCwd
  | unresolved (reason : String)
  deriving DecidableEq, Repr

structure State where
  schema : Nat
  sources : SortedMap String SourceRecord
  repos : SortedMap String RepoEntry
  dbFingerprints : SortedMap String String
  lastSweep : Option DateTime

def stateSchema : Nat := 2

/-- `REPO_RETRY`, 5 minutes. -/
def repoRetry : DateTime := 5 * 60 * 1000000000

def State.empty : State where
  schema := stateSchema
  sources := .empty
  repos := .empty
  dbFingerprints := .empty
  lastSweep := none

structure LocalStore where
  state : State
  dirty : Bool
  report : Report

def LocalStore.start : LocalStore where
  state := .empty
  dirty := false
  report := .default

def LocalStore.records (store : LocalStore) : List SourceRecord :=
  store.state.sources.values

def RepoEntry.of (now : DateTime) (resolution : RepoResolution) : RepoEntry where
  repoKey := match resolution with
    | .key key => some key
    | _ => none
  checkedAt := now
  error := match resolution with
    | .failed message => some message
    | _ => none

def RepoEntry.resolution (entry : RepoEntry) : RepoResolution :=
  match entry.repoKey, entry.error with
  | some key, _ => .key key
  | none, some message => .failed message
  | none, none => .noOrigin

def normalizeCwd (machine : Machine) (raw : String) : String :=
  let trimmed := trim raw
  if startsWith trimmed "file://" then (machine.filePath trimmed).getD trimmed
  else if startsWith trimmed "/" then (machine.filePath ("file://" ++ trimmed)).getD trimmed
  else trimmed

section Update

def LocalStore.insert (store : LocalStore) (key : String) (record : SourceRecord) : LocalStore :=
  { store with
    state := { store.state with sources := store.state.sources.insert key record }
    dirty := true }

def LocalStore.fail (store : LocalStore) (message : String) : LocalStore :=
  { store with report := { store.report with failures := store.report.failures ++ [message] } }

/-- Drop the records that `keep` does not hold for, and note their repositories. -/
def LocalStore.retain (store : LocalStore) (keep : String → SourceRecord → Bool)
    (noted : String → SourceRecord → Bool) : LocalStore :=
  let removed := store.state.sources.entries.filter fun entry => !keep entry.1 entry.2
  if removed.isEmpty then store
  else
    let repos := removed.filterMap fun entry =>
      if noted entry.1 entry.2 then entry.2.repoKey else none
    { state := { store.state with sources := store.state.sources.retain keep }
      dirty := true
      report := { store.report with
        changedRepos := store.report.changedRepos ∪ repos.toFinset } }

variable (machine : Machine)

def LocalStore.resolveDirectory (store : LocalStore) (dir : String) :
    RepoResolution × LocalStore :=
  let cached := (store.state.repos.get? dir).filter fun entry =>
    entry.repoKey.isSome || machine.now - entry.checkedAt < repoRetry
  match cached with
  | some entry => (entry.resolution, store)
  | none =>
      let resolution := match machine.originOf dir with
        | .ok key => .key key
        | .error .gitMissing => .noOrigin
        | .error (.noOrigin _) => .noOrigin
        | .error (.invalid message) => .failed message
      (resolution, { store with
        state := { store.state with
          repos := store.state.repos.insert dir (.of machine.now resolution) }
        dirty := true })

def LocalStore.resolveRepo (store : LocalStore) (cwd : Option String) :
    SessionRepo × LocalStore :=
  match cwd.filter fun cwd => !cwd.isEmpty with
  | none => (.missingCwd, store)
  | some cwd =>
      let dir := normalizeCwd machine cwd
      if machine.isDir dir then
        let (resolution, resolved) := store.resolveDirectory machine dir
        match resolution with
        | .key key => (.key key, resolved)
        | .noOrigin => (.unresolved s!"cannot resolve origin of {dir}", resolved)
        | .failed message => (.unresolved message, resolved)
      else (.missingCwd, store)

end Update

section Reload

variable [HarnessNames] [DocumentCodec] (machine : Machine)

def sourceKey (harness : HarnessId) (source : String) : String :=
  HarnessNames.asStr harness ++ "\n" ++ source

def LocalStore.failSource (store : LocalStore) (harness : HarnessId) (source reason : String) :
    LocalStore :=
  let name := HarnessNames.display harness
  store.fail s!"{name} {source} — {reason}"

/-- The failure of a session that stays pending is reported once per body. -/
def LocalStore.reportRepo (store : LocalStore) (harness : HarnessId) (source : String)
    (alreadyPending : Bool) : SessionRepo → LocalStore
  | .key _ => store
  | .missingCwd =>
      if alreadyPending then store
      else { store with report := { store.report with missingCwd := store.report.missingCwd + 1 } }
  | .unresolved reason =>
      if alreadyPending then store
      else store.failSource harness source s!"cannot resolve origin: {reason}"

def loadedRecord (harness : HarnessId) (source fingerprint : String)
    (updatedAt : Option DateTime) (transcript : Transcript) (repo : SessionRepo) : SourceRecord :=
  let repoKey := match repo with
    | .key repoKey => some repoKey
    | _ => none
  let contentHash := match repo with
    | .key repoKey =>
        match (ArchiveDocument.new harness repoKey transcript).contentHash with
        | .ok hash => hash
        | .error _ => ""
    | _ => ""
  let resolved := match repo with
    | .key _ => RecordState.ready
    | _ => RecordState.pending
  { harness := harness
    source := source
    fingerprint := fingerprint
    sessionId := transcript.metadata.id
    repoKey := repoKey
    state := if transcript.metadata.id.isEmpty then .broken else resolved
    freshness := Freshness.ofBody transcript.body updatedAt contentHash
    info := Info.of transcript.metadata }

def brokenRecord (now : DateTime) (harness : HarnessId) (source fingerprint : String)
    (updatedAt : Option DateTime) : SourceRecord where
  harness := harness
  source := source
  fingerprint := fingerprint
  sessionId := ""
  repoKey := none
  state := .broken
  freshness := ⟨updatedAt, none, 0, ""⟩
  info := ⟨now, none, none, none, none⟩

def LocalStore.noteReady (store : LocalStore) (record : SourceRecord) : LocalStore :=
  if record.state = .ready then
    { store with report := { store.report with
      changedRepos := store.report.changedRepos ∪ record.repoKey.toFinset } }
  else store

def LocalStore.reload (store : LocalStore) (harness : HarnessId) (source fingerprint : String)
    (updatedAt : Option DateTime) : LocalStore :=
  let key := sourceKey harness source
  let alreadyPending := (store.state.sources.get? key).any fun record =>
    record.state = .pending && record.fingerprint = fingerprint
  match machine.load harness source with
  | .ok transcript =>
      let (repo, resolved) := store.resolveRepo machine (Info.of transcript.metadata).cwd
      let reported := resolved.reportRepo harness source alreadyPending repo
      let record := loadedRecord harness source fingerprint updatedAt transcript repo
      let identified := if transcript.metadata.id.isEmpty then
          reported.failSource harness source "session id is empty"
        else reported
      let inserted := (identified.noteReady record).insert key record
      { inserted with report := { inserted.report with loaded := inserted.report.loaded + 1 } }
  | .error (.transient message) => store.failSource harness source s!"transient: {message}"
  | .error (.broken message) =>
      (store.insert key (brokenRecord machine.now harness source fingerprint updatedAt)).failSource
        harness source message

def LocalStore.reconsider (store : LocalStore) (harness : HarnessId) (source fingerprint : String)
    (updatedAt : Option DateTime) : LocalStore :=
  if (store.state.sources.get? (sourceKey harness source)).any fun record =>
      record.fingerprint = fingerprint then store
  else store.reload machine harness source fingerprint updatedAt

end Reload

section Drop

variable [HarnessNames]

/-- Records whose source vanished under the root of a site are gone. -/
def LocalStore.dropUnseen (store : LocalStore) (harness : HarnessId) (root : Option String)
    (seen : List String) : LocalStore :=
  store.retain
    (fun key _ =>
      match stripPrefix key (HarnessNames.asStr harness ++ "\n") with
      | none => true
      | some rest => !(root.all fun root => startsWith rest root) || key ∈ seen)
    fun _ _ => true

/-- Records whose site no longer exists are gone too. -/
def LocalStore.dropUnowned (store : LocalStore) (sites : List Site) : LocalStore :=
  store.retain
    (fun key _ =>
      match splitOnce key '\n' with
      | none => false
      | some (harness, source) => sites.any fun site =>
          HarnessNames.asStr site.harness = harness && site.owns source)
    fun key _ => (splitOnce key '\n').isSome

end Drop

section Diff

variable [HarnessNames] [DocumentCodec] (machine : Machine)

structure Found where
  source : String
  fingerprint : String
  updatedAt : Option DateTime
  deriving DecidableEq, Repr

def foundFiles (site : Site) : List Found :=
  let rows := walkTree machine site.path
  (rows.filter fun row => site.kind.matchesFile row.rel).map fun row =>
    { source := joinRel site.path row.rel
      fingerprint := rowFingerprint row rows site.kind
      updatedAt := some (mtimeDatetime row.mtimeNs) }

/-- The directories that hold a marker, each once and in order. -/
def sessionDirs (kind : Kind) (rows : List TreeRow) : List String :=
  (rows.filterMap fun row => (rsplitOnce row.rel '/').bind fun parts =>
    if kind.isDirMarker parts.1 parts.2 then some parts.1 else none).dedup.insertionSort (· ≤ ·)

def foundDirs (site : Site) : List Found :=
  let rows := walkTree machine site.path
  (sessionDirs site.kind rows).map fun dir =>
    let members := membersOf dir rows
    { source := joinRel site.path dir
      fingerprint := dirFingerprint members
      updatedAt := (members.map (·.mtimeNs)).max?.map mtimeDatetime }

/-- Consider every source that was found, then drop the records of the others. -/
def LocalStore.scanFound (store : LocalStore) (site : Site) (found : List Found) : LocalStore :=
  let considered := found.foldl (fun store entry =>
    store.reconsider machine site.harness entry.source entry.fingerprint entry.updatedAt) store
  considered.dropUnseen site.harness (some site.path)
    (found.map fun entry => sourceKey site.harness entry.source)

def LocalStore.scanFiles (store : LocalStore) (site : Site) : LocalStore :=
  store.scanFound machine site (foundFiles machine site)

def LocalStore.scanSessionDirs (store : LocalStore) (site : Site) : LocalStore :=
  store.scanFound machine site (foundDirs machine site)

def LocalStore.scanDb (store : LocalStore) (site : Site) : Except Error LocalStore :=
  let fingerprint := dbFingerprint machine site.path
  if store.state.dbFingerprints.get? site.path = some fingerprint then .ok store
  else do
    let found ← site.discover machine
    let scanned := store.scanFound machine site
      (found.map fun entry => ⟨entry.source, entry.fingerprint, none⟩)
    .ok { scanned with
      state := { scanned.state with
        dbFingerprints := scanned.state.dbFingerprints.insert site.path fingerprint }
      dirty := true }

def LocalStore.scanSite (store : LocalStore) (site : Site) : LocalStore :=
  match site.kind with
  | .files _ _ => store.scanFiles machine site
  | .sessionDirs _ => store.scanSessionDirs machine site
  | .grokBotDirs => store.scanSessionDirs machine site
  | .db =>
      match store.scanDb machine site with
      | .ok scanned => scanned
      | .error error => store.failSource site.harness site.path error.display

def LocalStore.resolvePendingKey (store : LocalStore) (key : String) : LocalStore :=
  match store.state.sources.get? key with
  | none => store
  | some record =>
      let (repo, resolved) := store.resolveRepo machine record.info.cwd
      match repo with
      | .key _ => resolved.reload machine record.harness record.source record.fingerprint
          record.freshness.updatedAt
      | _ => resolved

def LocalStore.resolvePending (store : LocalStore) : LocalStore :=
  let pending := (store.state.sources.entries.filter fun entry =>
    entry.2.state = .pending).map (·.1)
  pending.foldl (fun store key => store.resolvePendingKey machine key) store

/-- Stat-only scan of every site. Bodies are read only for new or changed sources. -/
def LocalStore.diff (store : LocalStore) : LocalStore :=
  let start := { store with report := .default }
  let scanned := (sites machine).foldl (fun store site => store.scanSite machine site) start
  (scanned.dropUnowned (sites machine)).resolvePending machine

end Diff

section File

/-- `file` is what its bytes parse to. A missing or unusable file starts empty. -/
def LocalStore.load (file : Option State) : LocalStore :=
  match file with
  | some state => if state.schema = stateSchema then { LocalStore.start with state } else .start
  | none => .start

/-- `atomic_write` replaces the file or, when the disk fails, leaves it. -/
def LocalStore.saveIfDirty (store : LocalStore) (diskError : Option Error) (file : Option State) :
    Except Error Unit × LocalStore × Option State :=
  if !store.dirty then (.ok (), store, file)
  else
    match diskError with
    | some error => (.error error, store, file)
    | none => (.ok (), { store with dirty := false }, some store.state)

def LocalStore.noteSwept (store : LocalStore) (now : DateTime) : LocalStore :=
  { store with
    state := { store.state with lastSweep := some now }
    dirty := true }

end File

end AgentTranscript
