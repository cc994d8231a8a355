import AgentTranscript.Basic

/-! Ranking of session snapshots: which one is newer, and which one is current. -/

set_option autoImplicit false

namespace AgentTranscript

structure Freshness where
  updatedAt : Option DateTime
  lastMessageAt : Option DateTime
  messageCount : Nat
  contentHash : String
  deriving DecidableEq, Repr

/-- Ranking data of a transcript body; `updatedAt` is the mtime of its source. -/
def Freshness.ofBody (body : List Message) (updatedAt : Option DateTime)
    (contentHash : String) : Freshness where
  updatedAt := updatedAt
  lastMessageAt := body.getLast?.map (·.timestamp)
  messageCount := body.length
  contentHash := contentHash

def Freshness.time (freshness : Freshness) : Option DateTime :=
  freshness.updatedAt.or freshness.lastMessageAt

/-- Presentation metadata shared by catalog revisions, source records and views. -/
structure Info where
  startedAt : DateTime
  title : Option String
  cwd : Option String
  gitBranch : Option String
  model : Option String
  deriving DecidableEq, Repr

def Info.of (metadata : Meta) : Info where
  startedAt := metadata.timestamp
  title := metadata.title
  cwd := metadata.cwd
  gitBranch := metadata.gitBranch
  model := metadata.model

inductive Rank where
  | left
  | right
  | same
  | ambiguous
  deriving DecidableEq, Repr

def rankByCount (left right : Freshness) : Rank :=
  if left.messageCount > right.messageCount then .left
  else if left.messageCount < right.messageCount then .right
  else if left.contentHash = right.contentHash then .same
  else .ambiguous

def rank (left right : Freshness) : Rank :=
  match left.time, right.time with
  | some leftTime, some rightTime =>
      if leftTime ≠ rightTime then
        if leftTime > rightTime then .left else .right
      else rankByCount left right
  | some _, none => .left
  | none, some _ => .right
  | none, none => rankByCount left right

/-- Which copy of a session supplies the body, or neither. -/
inductive Pick where
  | local
  | remote
  | ambiguous
  deriving DecidableEq, Repr

/-- The local copy wins rank ties; a tie on different bodies has no winner. -/
def prefer (left right : Freshness) : Pick :=
  match rank left right with
  | .left => .local
  | .same => .local
  | .right => .remote
  | .ambiguous => .ambiguous

inductive Current where
  | index (index : Nat)
  | ambiguous (display : Nat)
  deriving DecidableEq, Repr

/-- One turn of the loop in `choose_current`: the best item so far with its
index, and whether another body ties with it. -/
def chooseStep (state : (Freshness × Nat) × Bool) (item : Freshness × Nat) :
    (Freshness × Nat) × Bool :=
  match rank state.1.1 item.1 with
  | .left => state
  | .right => (item, false)
  | .same => state
  | .ambiguous => (state.1, true)

def chooseCurrent (items : List Freshness) : Except Error Current :=
  match items.zipIdx with
  | [] => .error (.msg "session has no revisions")
  | first :: rest =>
      let (best, tied) := rest.foldl chooseStep (first, false)
      .ok (if tied then .ambiguous best.2 else .index best.2)

example : chooseCurrent [⟨some 1, none, 10, "long-old"⟩, ⟨some 9, none, 3, "short-new"⟩] =
    .ok (.index 1) := by decide

end AgentTranscript
