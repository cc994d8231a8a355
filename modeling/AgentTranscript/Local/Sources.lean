import AgentTranscript.Document
import AgentTranscript.Local.Record
import AgentTranscript.Text

/-! The harness registry: which stores exist, and how their sources are found,
fingerprinted and loaded. -/

set_option autoImplicit false

namespace AgentTranscript

inductive FileRule where
  | ext (extension : String)
  | coworkRecord
  deriving DecidableEq, Repr

inductive Kind where
  | files (rule : FileRule) (excludeDirs : List String)
  | sessionDirs (markers : List String)
  | grokBotDirs
  | db
  deriving DecidableEq, Repr

structure Site where
  harness : HarnessId
  path : String
  kind : Kind
  deriving DecidableEq, Repr

structure TreeRow where
  rel : String
  mtimeNs : Nat
  size : Nat
  deriving DecidableEq, Repr

structure Discovery where
  source : String
  fingerprint : String
  deriving DecidableEq, Repr

inductive OriginError where
  | gitMissing
  | noOrigin (dir : String)
  | invalid (message : String)
  deriving DecidableEq, Repr

/-- What a diff finds outside its own state: the stores that txcript locates and
reads, the file system, `git`, the file URLs of the `url` crate, and the clock. -/
structure Machine where
  roots : HarnessId → List String
  listing : String → List TreeRow
  stat : String → Option (Nat × Nat)
  discover : HarnessId → String → Except Error (List (String × String))
  loadPath : HarnessId → String → String → Except LoadFailure Transcript
  loadDb : HarnessId → String → String → Except LoadFailure Transcript
  isDir : String → Bool
  originOf : String → Except OriginError String
  filePath : String → Option String
  now : DateTime

def FileRule.matches (rule : FileRule) (rel : String) : Bool :=
  let name := lastPart rel '/'
  match rule with
  | .ext extension => (rsplitOnce name '.').any fun parts => parts.2 = extension
  | .coworkRecord => startsWith name "local_" && endsWith name ".json"

def FileRule.dbSidecars (rule : FileRule) : Bool :=
  rule = .ext "db"

def FileRule.extentDir (rule : FileRule) : Bool :=
  rule = .coworkRecord

def Kind.matchesFile (kind : Kind) (rel : String) : Bool :=
  match kind with
  | .files rule excludeDirs =>
      rule.matches rel && !(splitChar rel '/').any fun part => part ∈ excludeDirs
  | _ => false

def Kind.isDirMarker (kind : Kind) (parent name : String) : Bool :=
  match kind with
  | .sessionDirs markers => name ∈ markers
  | .grokBotDirs =>
      name = "profile.json" ||
        (stripSuffix name ".jsonl").any fun stem => stem = lastPart parent '/'
  | _ => false

def siteTable : List (HarnessId × Kind) :=
  [(.claudeCode, .files (.ext "jsonl") ["subagents", "tool-results"]),
    (.codex, .files (.ext "jsonl") []),
    (.pi, .files (.ext "jsonl") []),
    (.campfire, .files (.ext "jsonl") []),
    (.cursor, .files (.ext "db") []),
    (.amp, .files (.ext "json") []),
    (.antigravity, .files (.ext "db") []),
    (.cowork, .files .coworkRecord []),
    (.grok, .sessionDirs ["updates.jsonl", "chat_history.jsonl"]),
    (.grokBot, .grokBotDirs),
    (.fx, .sessionDirs ["events.jsonl"]),
    (.hermes, .db),
    (.cursorDesktop, .db),
    (.openCode, .db)]

def sites (machine : Machine) : List Site :=
  siteTable.flatMap fun entry => (machine.roots entry.1).map fun path =>
    { harness := entry.1, path := path, kind := entry.2 }

def Site.sourcePrefix (site : Site) : String :=
  match site.kind with
  | .db => site.path ++ "\n"
  | _ => site.path

/-- Path prefixes compare by component, database prefixes by text. -/
def Site.owns (site : Site) (source : String) : Bool :=
  match site.kind with
  | .db => startsWith source site.sourcePrefix
  | _ => pathStartsWith source site.path

section Load

variable [HarnessNames]

def Site.load (machine : Machine) (site : Site) (source : String) :
    Except LoadFailure Transcript :=
  match site.kind with
  | .db =>
      match stripPrefix source site.sourcePrefix with
      | some reference => machine.loadDb site.harness site.path reference
      | none =>
          let path := site.path
          .error (.broken s!"source `{source}` is not in database {path}")
  | _ => machine.loadPath site.harness site.path source

/-- The longest path, and of equally long ones the last. -/
def longestSite : List Site → Option Site
  | [] => none
  | first :: rest => some (rest.foldl (fun best site =>
      if best.path.utf8ByteSize ≤ site.path.utf8ByteSize then site else best) first)

/-- Load the transcript a source locates, through the site that owns it. -/
def Machine.load (machine : Machine) : Load := fun harness source =>
  match longestSite ((sites machine).filter fun site =>
      site.harness = harness && site.owns source) with
  | some site => site.load machine source
  | none =>
      let name := HarnessNames.display harness
      .error (.broken s!"{name} has no store for `{source}`")

def Site.discover (machine : Machine) (site : Site) : Except Error (List Discovery) :=
  match site.kind with
  | .db => do
      let found ← machine.discover site.harness site.path
      .ok (found.map fun entry =>
        { source := site.sourcePrefix ++ entry.1, fingerprint := entry.2 })
  | _ =>
      let name := HarnessNames.display site.harness
      .error (.msg s!"{name} is not a database-backed site")

end Load

section Fingerprint

/-- `DateTime::from(UNIX_EPOCH + ..)`, with the nanoseconds clamped to 64 bits. -/
def mtimeDatetime (mtimeNs : Nat) : DateTime :=
  min mtimeNs (2 ^ 64 - 1)

def statFingerprint (machine : Machine) (path : String) : String :=
  match machine.stat path with
  | none => ""
  | some (mtime, size) => s!"{mtime}:{size}"

def dbFingerprint (machine : Machine) (path : String) : String :=
  "|".intercalate ([path, path ++ "-wal", path ++ "-shm"].map (statFingerprint machine))

/-- Stat-only recursive listing of a store root. -/
def walkTree (machine : Machine) (root : String) : List TreeRow :=
  (machine.listing root).insertionSort fun left right => left.rel ≤ right.rel

def TreeRow.line (row : TreeRow) : String :=
  let rel := row.rel
  let mtimeNs := row.mtimeNs
  let size := row.size
  s!"{rel}:{mtimeNs}:{size}\n"

def dirFingerprint [DocumentCodec] (rows : List TreeRow) : String :=
  DocumentCodec.sha256Hex (asBytes (String.join (rows.map TreeRow.line)))

def membersOf (dir : String) (rows : List TreeRow) : List TreeRow :=
  rows.filter fun row => startsWith row.rel (dir ++ "/")

/-- Fingerprint of one file-based source. The rule of the site decides which
neighbouring rows join it. -/
def rowFingerprint [DocumentCodec] (row : TreeRow) (rows : List TreeRow) (kind : Kind) : String :=
  let mtimeNs := row.mtimeNs
  let size := row.size
  let own := s!"{mtimeNs}:{size}"
  match kind with
  | .files rule _ =>
      let sidecars := if rule.dbSidecars then
          ["-wal", "-shm"].filterMap fun suffix =>
            (rows.find? fun other => other.rel = row.rel ++ suffix).map fun sidecar =>
              let mtimeNs := sidecar.mtimeNs
              let size := sidecar.size
              s!"|{mtimeNs}:{size}"
        else []
      let extent := if rule.extentDir then
          let dir := (stripSuffix row.rel ".json").getD row.rel
          "|" ++ dirFingerprint (membersOf dir rows)
        else ""
      own ++ String.join sidecars ++ extent
  | _ => own

end Fingerprint

end AgentTranscript
