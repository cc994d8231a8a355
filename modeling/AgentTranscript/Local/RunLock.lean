import AgentTranscript.Library.HashMap
import AgentTranscript.Library.Transition
import AgentTranscript.Text

/-!
The lock file of ingest runs, one file operation at a time. The lock is taken by
creating the file; a file whose process is gone is removed first.
-/

set_option autoImplicit false

namespace AgentTranscript

open Transition

/-- `str::parse::<u32>`. -/
def parseU32 (text : String) : Option Nat :=
  let digits := match text.toList with
    | '+' :: rest => rest
    | all => all
  if digits.isEmpty || !digits.all Char.isDigit then none
  else
    let value := digits.foldl (fun value digit => value * 10 + (digit.toNat - '0'.toNat)) 0
    if value < 2 ^ 32 then some value else none

/-- What is at the path of the lock: an unlinked file keeps its inode. -/
structure LockFile where
  inode : Nat
  text : String
  deriving DecidableEq, Repr

/-- Where a process is in `acquire`, or that it holds the lock. -/
inductive LockPhase where
  | idle
  | checking (text : String)
  | removing
  | creating
  | writing (inode : Nat)
  | holding
  deriving DecidableEq, Repr

/-- `processes` are the live ones, by their ids. -/
structure LockState where
  file : Option LockFile
  nextInode : Nat
  processes : HashMap Nat LockPhase

/-- One file operation of one process; `denied` ones fail for a reason of the
system. A process that crashes never drops its lock. -/
inductive LockAction where
  | spawn (pid : Nat)
  | read (pid : Nat) (denied : Bool)
  | check (pid : Nat)
  | remove (pid : Nat) (denied : Bool)
  | create (pid : Nat) (denied : Bool)
  | write (pid : Nat) (denied : Bool)
  | drop (pid : Nat) (denied : Bool)
  | crash (pid : Nat)
  deriving DecidableEq, Repr

def LockState.initial (file : Option LockFile) : LockState where
  file := file
  nextInode := match file with
    | none => 0
    | some file => file.inode + 1
  processes := ∅

def LockState.enter (state : LockState) (pid : Nat) (phase : Option LockPhase) : LockState :=
  { state with processes := match phase with
      | some phase => state.processes.insert pid phase
      | none => state.processes.erase pid }

def LockState.unlink (state : LockState) : LockState :=
  { state with file := none }

def LockState.link (state : LockState) : LockState :=
  { state with file := some ⟨state.nextInode, ""⟩, nextInode := state.nextInode + 1 }

/-- A write goes to the open file, which may no longer be the one at the path. -/
def LockState.writePid (state : LockState) (pid inode : Nat) : LockState :=
  { state with file := state.file.map fun file =>
      if file.inode = inode then { file with text := s!"{pid}\n" } else file }

def processAlive (state : LockState) (pid : Nat) : Bool :=
  (state.processes.lookup pid).isSome

def LockState.refused (state : LockState) (pid : Nat) (text : String) : Bool :=
  match parseU32 (trim text) with
  | some other => other ≠ pid && processAlive state other
  | none => false

def lockStep (state : LockState) : LockAction → Option LockState
  | .spawn pid =>
      match state.processes.lookup pid with
      | none => some (state.enter pid (some .idle))
      | some _ => none
  | .read pid denied =>
      match state.processes.lookup pid with
      | some .idle =>
          match state.file, denied with
          | some file, false => some (state.enter pid (some (.checking file.text)))
          | _, _ => some (state.enter pid (some .creating))
      | _ => none
  | .check pid =>
      match state.processes.lookup pid with
      | some (.checking text) =>
          if state.refused pid text then some (state.enter pid (some .idle))
          else some (state.enter pid (some .removing))
      | _ => none
  | .remove pid denied =>
      match state.processes.lookup pid with
      | some .removing =>
          match state.file, denied with
          | some _, false => some (state.unlink.enter pid (some .creating))
          | _, _ => some (state.enter pid (some .idle))
      | _ => none
  | .create pid denied =>
      match state.processes.lookup pid with
      | some .creating =>
          match state.file, denied with
          | none, false => some (state.link.enter pid (some (.writing state.nextInode)))
          | _, _ => some (state.enter pid (some .idle))
      | _ => none
  | .write pid denied =>
      match state.processes.lookup pid with
      | some (.writing inode) =>
          if denied then some (state.enter pid (some .idle))
          else some ((state.writePid pid inode).enter pid (some .holding))
      | _ => none
  | .drop pid denied =>
      match state.processes.lookup pid with
      | some .holding =>
          if denied then some (state.enter pid (some .idle))
          else some (state.unlink.enter pid (some .idle))
      | _ => none
  | .crash pid =>
      match state.processes.lookup pid with
      | some _ => some (state.enter pid none)
      | none => none

/-- Between its `create_new` and its drop. -/
def LockPhase.owns : LockPhase → Bool
  | .writing _ | .holding => true
  | _ => false

def LockState.owns (state : LockState) (pid : Nat) : Bool :=
  (state.processes.lookup pid).any LockPhase.owns

section Fields

variable (state : LockState) (pid other inode : Nat) (phase : Option LockPhase)

@[simp] theorem enter_file : (state.enter pid phase).file = state.file := rfl

@[simp] theorem enter_lookup (entered : LockPhase) :
    (state.enter pid (some entered)).processes.lookup other =
      if other = pid then some entered else state.processes.lookup other :=
  HashMap.lookup_insert_eq state.processes pid other entered

@[simp] theorem enter_owns :
    (state.enter pid phase).owns other =
      if other = pid then phase.any LockPhase.owns else state.owns other := by
  unfold LockState.owns LockState.enter
  cases phase with
  | none => split_ifs with same <;> simp [HashMap.lookup_erase_eq, same]
  | some phase => split_ifs with same <;> simp [HashMap.lookup_insert_eq, same]

@[simp] theorem unlink_processes : state.unlink.processes = state.processes := rfl

@[simp] theorem link_processes : state.link.processes = state.processes := rfl

@[simp] theorem writePid_processes : (state.writePid pid inode).processes = state.processes := rfl

@[simp] theorem unlink_owns : state.unlink.owns other = state.owns other := rfl

@[simp] theorem link_file : state.link.file ≠ none := by simp [LockState.link]

@[simp] theorem writePid_file : (state.writePid pid inode).file = none ↔ state.file = none := by
  simp [LockState.writePid]

end Fields

section Steps

variable {state next : LockState} {action : LockAction}

/-- What a step can do to the path and to the process that takes it. -/
theorem lockStep_cases (stepped : lockStep state action = some next) : ∃ pid,
    (∃ phase : Option LockPhase, phase.any LockPhase.owns = false ∧
      next = state.enter pid phase) ∨
    (action = .remove pid false ∧ state.file ≠ none ∧
      next = state.unlink.enter pid (some .creating)) ∨
    (state.file = none ∧ next = state.link.enter pid (some (.writing state.nextInode))) ∨
    (∃ inode, state.owns pid = true ∧
      next = (state.writePid pid inode).enter pid (some .holding)) ∨
    (state.owns pid = true ∧ next = state.unlink.enter pid (some .idle)) := by
  cases action with
  | spawn pid =>
      simp only [lockStep] at stepped
      split at stepped
      · exact ⟨pid, .inl ⟨some .idle, rfl, (Option.some.inj stepped).symm⟩⟩
      · cases stepped
  | read pid denied =>
      simp only [lockStep] at stepped
      split at stepped
      · split at stepped
        · rename_i file _
          exact ⟨pid, .inl ⟨some (.checking file.text), rfl, (Option.some.inj stepped).symm⟩⟩
        · exact ⟨pid, .inl ⟨some .creating, rfl, (Option.some.inj stepped).symm⟩⟩
      · cases stepped
  | check pid =>
      simp only [lockStep] at stepped
      split at stepped
      · split_ifs at stepped
        · exact ⟨pid, .inl ⟨some .idle, rfl, (Option.some.inj stepped).symm⟩⟩
        · exact ⟨pid, .inl ⟨some .removing, rfl, (Option.some.inj stepped).symm⟩⟩
      · cases stepped
  | remove pid denied =>
      simp only [lockStep] at stepped
      split at stepped
      · split at stepped
        · rename_i present
          exact ⟨pid, .inr (.inl ⟨rfl, by simp [present], (Option.some.inj stepped).symm⟩)⟩
        · exact ⟨pid, .inl ⟨some .idle, rfl, (Option.some.inj stepped).symm⟩⟩
      · cases stepped
  | create pid denied =>
      simp only [lockStep] at stepped
      split at stepped
      · split at stepped
        · rename_i absent
          exact ⟨pid, .inr (.inr (.inl ⟨absent, (Option.some.inj stepped).symm⟩))⟩
        · exact ⟨pid, .inl ⟨some .idle, rfl, (Option.some.inj stepped).symm⟩⟩
      · cases stepped
  | write pid denied =>
      simp only [lockStep] at stepped
      split at stepped
      · rename_i inode entered
        split_ifs at stepped
        · exact ⟨pid, .inl ⟨some .idle, rfl, (Option.some.inj stepped).symm⟩⟩
        · exact ⟨pid, .inr (.inr (.inr (.inl ⟨inode, by simp [LockState.owns, entered, LockPhase.owns],
            (Option.some.inj stepped).symm⟩)))⟩
      · cases stepped
  | drop pid denied =>
      simp only [lockStep] at stepped
      split at stepped
      · rename_i entered
        split_ifs at stepped
        · exact ⟨pid, .inl ⟨some .idle, rfl, (Option.some.inj stepped).symm⟩⟩
        · exact ⟨pid, .inr (.inr (.inr (.inr ⟨by simp [LockState.owns, entered, LockPhase.owns],
            (Option.some.inj stepped).symm⟩)))⟩
      · cases stepped
  | crash pid =>
      simp only [lockStep] at stepped
      split at stepped
      · exact ⟨pid, .inl ⟨none, rfl, (Option.some.inj stepped).symm⟩⟩
      · cases stepped

end Steps

section Exclusion

/-- `acquire` removes the file only while no live process is between its own
`create_new` and its drop. -/
def Unowned (state : LockState) : LockAction → Prop
  | .remove _ denied => denied = false → state.file ≠ none →
      ∀ pid ∈ state.processes.keys, state.owns pid = false
  | _ => True

instance (state : LockState) : ∀ action, Decidable (Unowned state action)
  | .remove _ denied => inferInstanceAs (Decidable (denied = false → state.file ≠ none →
      ∀ pid ∈ state.processes.keys, state.owns pid = false))
  | .spawn _ | .read _ _ | .check _ | .create _ _ | .write _ _ | .drop _ _ | .crash _ =>
      inferInstanceAs (Decidable True)

/-- One process owns the lock, and then its file is there. -/
structure Exclusive (state : LockState) : Prop where
  one : ∀ left right, state.owns left = true → state.owns right = true → left = right
  present : ∀ pid, state.owns pid = true → state.file ≠ none

variable {state next final : LockState} {action : LockAction} {file : Option LockFile}

theorem live_of_owns {pid : Nat} (owns : state.owns pid = true) : pid ∈ state.processes.keys := by
  apply HashMap.mem_keys_iff.mpr
  intro gone
  rw [LockState.owns, gone] at owns
  cases owns

theorem Exclusive.initial : Exclusive (.initial file) where
  one := by
    intro left right owned
    cases owned
  present := by
    intro pid owned
    cases owned

/-- A step that makes no owner and leaves a file at the path. -/
theorem Exclusive.shrink (exclusive : Exclusive state)
    (owned : ∀ pid, next.owns pid = true → state.owns pid = true)
    (stays : state.file ≠ none → next.file ≠ none) : Exclusive next where
  one left right leftOwns rightOwns :=
    exclusive.one left right (owned left leftOwns) (owned right rightOwns)
  present pid owns := stays (exclusive.present pid (owned pid owns))

theorem Exclusive.of_unowned (free : ∀ pid, next.owns pid = false) : Exclusive next where
  one left _ owns := by
    rw [free left] at owns
    cases owns
  present pid owns := by
    rw [free pid] at owns
    cases owns

/-- Only `create_new` makes an owner, and it needs the path to be free. -/
theorem Exclusive.step (exclusive : Exclusive state) (unowned : Unowned state action)
    (stepped : lockStep state action = some next) : Exclusive next := by
  obtain ⟨pid, stays | removes | creates | writes | drops⟩ := lockStep_cases stepped
  · obtain ⟨phase, released, rfl⟩ := stays
    refine exclusive.shrink ?_ id
    intro other owns
    rw [enter_owns] at owns
    split_ifs at owns
    · rw [released] at owns
      cases owns
    · exact owns
  · obtain ⟨rfl, there, rfl⟩ := removes
    apply Exclusive.of_unowned
    intro other
    rw [enter_owns, unlink_owns]
    split_ifs
    · rfl
    · exact Bool.eq_false_iff.mpr fun owns =>
        absurd owns (Bool.eq_false_iff.mp (unowned rfl there other (live_of_owns owns)))
  · obtain ⟨absent, rfl⟩ := creates
    have own : ∀ other, (state.link.enter pid (some (.writing state.nextInode))).owns other = true →
        other = pid := by
      intro other owns
      rw [enter_owns] at owns
      split_ifs at owns with same
      · exact same
      · exact absurd absent (exclusive.present other owns)
    exact ⟨fun left right leftOwns rightOwns => (own left leftOwns).trans (own right rightOwns).symm,
      fun other _ => link_file state⟩
  · obtain ⟨inode, before, rfl⟩ := writes
    apply exclusive.shrink
    · intro other owns
      rw [enter_owns] at owns
      split_ifs at owns with same
      · exact same ▸ before
      · exact owns
    · intro there
      rwa [enter_file, ne_eq, writePid_file]
  · obtain ⟨before, rfl⟩ := drops
    apply Exclusive.of_unowned
    intro other
    rw [enter_owns, unlink_owns]
    split_ifs with same
    · rfl
    · exact Bool.eq_false_iff.mpr fun owns => same (exclusive.one other pid owns before)

theorem owns_of_holding {pid : Nat} (holds : state.processes.lookup pid = some .holding) :
    state.owns pid = true := by
  simp [LockState.owns, holds, LockPhase.owns]

/-- At most one live process is between a successful `acquire` and its drop. -/
theorem runLock_exclusive (run : Run lockStep Unowned (.initial file) final) {left right : Nat}
    (leftHolds : final.processes.lookup left = some .holding)
    (rightHolds : final.processes.lookup right = some .holding) : left = right := by
  have exclusive : Exclusive final :=
    run.invariant Exclusive .initial fun state action next held unowned stepped =>
      held.step unowned stepped
  exact exclusive.one left right (owns_of_holding leftHolds) (owns_of_holding rightHolds)

/-- After a removal that the condition excludes, both processes can come to hold
the lock. -/
theorem removal_admits {pid other : Nat} (removing : state.processes.lookup pid = some .removing)
    (there : state.file ≠ none) (owned : state.owns other = true) :
    ∃ final, Run lockStep (fun _ _ => True) state final ∧ other ≠ pid ∧
      final.processes.lookup pid = some .holding ∧
        final.processes.lookup other = some .holding := by
  obtain ⟨file, present⟩ := Option.ne_none_iff_exists'.mp there
  have apart : other ≠ pid := by
    intro same
    rw [same, LockState.owns, removing] at owned
    cases owned
  let removed := state.unlink.enter pid (some .creating)
  let created := removed.link.enter pid (some (.writing removed.nextInode))
  let written := (created.writePid pid removed.nextInode).enter pid (some .holding)
  have removes : lockStep state (.remove pid false) = some removed := by
    simp [lockStep, removing, present, removed]
  have creates : lockStep removed (.create pid false) = some created := by
    have entered : removed.processes.lookup pid = some .creating := by simp [removed]
    have free : removed.file = none := rfl
    simp [lockStep, entered, free, created]
  have writes : lockStep created (.write pid false) = some written := by
    simp [lockStep, created, written]
  have run : Run lockStep (fun _ _ => True) state written :=
    ((Run.refl.tail trivial removes).tail trivial creates).tail trivial writes
  have waits : written.processes.lookup other = state.processes.lookup other := by
    simp [written, created, removed, apart]
  cases phase : state.processes.lookup other with
  | none => simp [LockState.owns, phase] at owned
  | some entered =>
      cases entered with
      | holding => exact ⟨written, run, apart, by simp [written], waits.trans phase⟩
      | writing inode =>
          have finishes : lockStep written (.write other false) =
              some ((written.writePid other inode).enter other (some .holding)) := by
            simp [lockStep, waits, phase]
          refine ⟨_, run.tail trivial finishes, apart, ?_, by simp⟩
          simp [written, apart.symm]
      | idle | checking _ | removing | creating =>
          simp [LockState.owns, phase, LockPhase.owns] at owned

end Exclusion

section Example

/-- One process replaces the file of a crashed one, and refuses another. -/
def recovered : LockState :=
  (execute lockStep Unowned (.initial (some ⟨0, "7\n"⟩))
    [.spawn 1, .read 1 false, .check 1, .remove 1 false, .create 1 false, .write 1 false,
      .spawn 2, .read 2 false, .check 2]).getD (.initial none)

theorem runLock_exclusive_recovered : recovered.processes.lookup 1 = some .holding ∧
    recovered.processes.lookup 2 ≠ some .holding := by
  have executed : execute lockStep Unowned (.initial (some ⟨0, "7\n"⟩))
      [.spawn 1, .read 1 false, .check 1, .remove 1 false, .create 1 false, .write 1 false,
        .spawn 2, .read 2 false, .check 2] = some recovered := by rfl
  have held : recovered.processes.lookup 1 = some .holding := by rfl
  refine ⟨held, ?_⟩
  intro other
  exact absurd (runLock_exclusive (run_of_execute executed) held other) (by decide)

def raced : LockState :=
  (execute lockStep (fun _ _ => True) (.initial none)
    [.spawn 1, .spawn 2, .read 1 false, .create 1 false, .read 2 false, .check 2, .remove 2 false,
      .create 2 false, .write 1 false, .write 2 false]).getD (.initial none)

/-- The second process reads the file of the first before its pid is in it. -/
theorem runLock_raced : Run lockStep (fun _ _ => True) (.initial none) raced ∧
    raced.processes.lookup 1 = some .holding ∧ raced.processes.lookup 2 = some .holding := by
  have executed : execute lockStep (fun _ _ => True) (.initial none)
      [.spawn 1, .spawn 2, .read 1 false, .create 1 false, .read 2 false, .check 2,
        .remove 2 false, .create 2 false, .write 1 false, .write 2 false] = some raced := by rfl
  exact ⟨run_of_execute executed, by rfl, by rfl⟩

end Example

end AgentTranscript
