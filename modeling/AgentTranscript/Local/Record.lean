import AgentTranscript.Merge.Freshness

/-! Records of local session sources, and their grouping by session. -/

set_option autoImplicit false

namespace AgentTranscript

/-- `ready`: body read and hashed. `pending`: body read, repository unknown.
`broken`: the source could not be parsed. -/
inductive RecordState where
  | ready
  | pending
  | broken
  deriving DecidableEq, Repr

structure SourceRecord where
  harness : HarnessId
  source : String
  fingerprint : String
  sessionId : String
  repoKey : Option String
  state : RecordState
  freshness : Freshness
  info : Info
  deriving DecidableEq, Repr

/-- Why a source could not be read: try again, or only once it has changed. -/
inductive LoadFailure where
  | transient (message : String)
  | broken (message : String)
  deriving DecidableEq, Repr

abbrev Load := HarnessId → String → Except LoadFailure Transcript

structure Report where
  loaded : Nat
  missingCwd : Nat
  changedRepos : Finset String
  failures : List String
  deriving DecidableEq

def Report.default : Report where
  loaded := 0
  missingCwd := 0
  changedRepos := ∅
  failures := []

abbrev GroupKey := HarnessId × String × Option String

def SourceRecord.groupKey (record : SourceRecord) : GroupKey :=
  (record.harness, record.sessionId, record.repoKey)

/-- Records of broken sources and without a session id belong to no session. -/
def SourceRecord.grouped (record : SourceRecord) : Bool :=
  record.state ≠ .broken && !record.sessionId.isEmpty

/-- `entry(key).or_default().push(record)`. The order of entries is never observed. -/
def groupInsert (record : SourceRecord) :
    List (GroupKey × List SourceRecord) → List (GroupKey × List SourceRecord)
  | [] => [(record.groupKey, [record])]
  | entry :: rest =>
      if entry.1 = record.groupKey then (entry.1, entry.2 ++ [record]) :: rest
      else entry :: groupInsert record rest

def grouped (records : List SourceRecord) : List (GroupKey × List SourceRecord) :=
  records.foldl (fun groups record =>
    if record.grouped then groupInsert record groups else groups) []

end AgentTranscript
