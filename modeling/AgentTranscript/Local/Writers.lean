import AgentTranscript.Library.Transition
import AgentTranscript.Local.AtomicWrite

/-!
Any number of atomic writes and reads at once, one file system call at a time. A process that
is killed takes no further step.
-/

set_option autoImplicit false

namespace AgentTranscript

open Transition

section Volumes

/-- Files by inode, and the directory entries that name them. -/
structure Volume where
  inodes : Nat → Bytes
  nextInode : Nat
  entries : List String → Option Nat
  bounded : ∀ path inode, entries path = some inode → inode < nextInode

def Volume.content (volume : Volume) (path : List String) : Option Bytes :=
  (volume.entries path).map volume.inodes

/-- `File::create`: an existing file is truncated. -/
def Volume.create (volume : Volume) (path : List String) : Volume × Nat :=
  match volume.entries path with
  | some inode => ({ volume with inodes := Function.update volume.inodes inode [] }, inode)
  | none => ({
      inodes := Function.update volume.inodes volume.nextInode []
      nextInode := volume.nextInode + 1
      entries := Function.update volume.entries path (some volume.nextInode)
      bounded := by
        intro other inode found
        rw [Function.update_apply] at found
        split_ifs at found
        · cases found
          exact Nat.lt_succ_self _
        · exact Nat.lt_succ_of_lt (volume.bounded other inode found) }, volume.nextInode)

def Volume.append (volume : Volume) (inode : Nat) (bytes : Bytes) : Volume :=
  { volume with inodes := Function.update volume.inodes inode (volume.inodes inode ++ bytes) }

def Volume.rename (volume : Volume) (source target : List String) : Volume where
  inodes := volume.inodes
  nextInode := volume.nextInode
  entries := fun path =>
    if path = target then volume.entries source
    else if path = source then none else volume.entries path
  bounded := by
    intro path inode found
    split_ifs at found
    · exact volume.bounded source inode found
    · exact volume.bounded path inode found

def Volume.unlink (volume : Volume) (path : List String) : Volume where
  inodes := volume.inodes
  nextInode := volume.nextInode
  entries := Function.update volume.entries path none
  bounded := by
    intro other inode found
    rw [Function.update_apply] at found
    split_ifs at found
    exact volume.bounded other inode found

theorem append_inodes (volume : Volume) (inode : Nat) (bytes : Bytes) (file : Nat) :
    (volume.append inode bytes).inodes file =
      if file = inode then volume.inodes inode ++ bytes else volume.inodes file :=
  Function.update_apply volume.inodes inode _ file

theorem unlink_entries (volume : Volume) (path other : List String) :
    (volume.unlink path).entries other = if other = path then none else volume.entries other :=
  Function.update_apply volume.entries path none other

end Volumes

section Definitions

structure WriteCall where
  path : String
  random : Nat
  bytes : Bytes
  deriving DecidableEq, Repr

def WriteCall.target (call : WriteCall) : List String :=
  components call.path

def WriteCall.temporary (call : WriteCall) : Option (List String) :=
  (pathParent call.target).map fun parent => parent ++ [temporaryName call.target call.random]

/-- Where a call of `atomic_write` stands. The phases name what is done next. -/
inductive WritePhase where
  | start
  | creating
  | writing (inode written : Nat)
  | replacing
  | checking (error : Error)
  | removing
  | replacingAgain
  | cleaning (error : Error)
  | returned (result : Except Error Unit)

/-- Where a call of `fs::read` stands. `moment` counts the changes before it opened the file. -/
inductive ReadPhase where
  | idle
  | reading (path : List String) (moment inode : Nat) (got : Bytes)
  | returned (path : List String) (moment : Nat) (result : Option Bytes)
  | failed (error : Error)

/-- The changes of targets. -/
inductive TargetChange (Writer : Type) where
  | renamed (writer : Writer)
  | removed (writer : Writer)
  deriving DecidableEq, Repr

structure Disk (Writer Reader : Type) where
  volume : Volume
  writers : Writer → WritePhase
  readers : Reader → ReadPhase
  log : List (TargetChange Writer)

/-- A system call of one writer or reader. `fault` is the error of one that fails, and `count`
the number of bytes of one that reads or writes. -/
inductive DiskAction (Writer Reader : Type) where
  | write (writer : Writer) (count : Nat) (fault : Option Error)
  | openFile (reader : Reader) (path : List String) (fault : Option Error)
  | read (reader : Reader) (count : Nat) (fault : Option Error)

variable {Writer Reader : Type} [DecidableEq Writer] [DecidableEq Reader]

def Disk.start (volume : Volume) : Disk Writer Reader where
  volume := volume
  writers := fun _ => .start
  readers := fun _ => .idle
  log := []

def Disk.enter (disk : Disk Writer Reader) (writer : Writer) (phase : WritePhase) :
    Disk Writer Reader :=
  { disk with writers := Function.update disk.writers writer phase }

def Disk.on (disk : Disk Writer Reader) (volume : Volume) : Disk Writer Reader :=
  { disk with volume := volume }

def Disk.note (disk : Disk Writer Reader) (change : TargetChange Writer) : Disk Writer Reader :=
  { disk with log := disk.log ++ [change] }

def notFound : Error := .io "No such file or directory (os error 2)"

/-- `fs::rename` of the temporary over the target. -/
def Disk.renamed (disk : Disk Writer Reader) (writer : Writer) (temporary target : List String)
    (otherwise : Error → WritePhase) : Disk Writer Reader :=
  match disk.volume.entries temporary with
  | none => disk.enter writer (otherwise notFound)
  | some _ => ((disk.on (disk.volume.rename temporary target)).note (.renamed writer)).enter writer
      (.returned (.ok ()))

def Disk.writeStep (calls : Writer → WriteCall) (disk : Disk Writer Reader) (writer : Writer)
    (count : Nat) (fault : Option Error) : Option (Disk Writer Reader) :=
  let call := calls writer
  match call.temporary, disk.writers writer, fault with
  | none, .start, _ => some (disk.enter writer
      (.returned (.error (.msg s!"{call.path} has no parent directory"))))
  | none, _, _ => none
  | some _, .start, some error => some (disk.enter writer (.returned (.error error)))
  | some _, .start, none => some (disk.enter writer .creating)
  | some _, .creating, some error => some (disk.enter writer (.returned (.error error)))
  | some temporary, .creating, none =>
      let (volume, inode) := disk.volume.create temporary
      some ((disk.on volume).enter writer (.writing inode 0))
  | some _, .writing inode written, fault =>
      if written < call.bytes.length then
        match fault with
        | some error => some (disk.enter writer (.returned (.error error)))
        | none =>
            let chunk := (call.bytes.drop written).take count
            if chunk.isEmpty then none
            else some ((disk.on (disk.volume.append inode chunk)).enter writer
              (.writing inode (written + chunk.length)))
      else some (disk.enter writer .replacing)
  | some _, .replacing, some error => some (disk.enter writer (.checking error))
  | some temporary, .replacing, none =>
      some (disk.renamed writer temporary call.target .checking)
  | some _, .checking error, fault =>
      if (disk.volume.entries call.target).isSome && fault.isNone then
        some (disk.enter writer .removing)
      else some (disk.enter writer (.cleaning error))
  | some _, .removing, some error => some (disk.enter writer (.returned (.error error)))
  | some _, .removing, none =>
      match disk.volume.entries call.target with
      | none => some (disk.enter writer (.returned (.error notFound)))
      | some _ => some (((disk.on (disk.volume.unlink call.target)).note (.removed writer)).enter
          writer .replacingAgain)
  | some _, .replacingAgain, some error => some (disk.enter writer (.returned (.error error)))
  | some temporary, .replacingAgain, none =>
      some (disk.renamed writer temporary call.target fun error => .returned (.error error))
  | some _, .cleaning error, some _ => some (disk.enter writer (.returned (.error error)))
  | some temporary, .cleaning error, none =>
      some ((disk.on (disk.volume.unlink temporary)).enter writer (.returned (.error error)))
  | some _, .returned _, _ => none

def Disk.turn (disk : Disk Writer Reader) (reader : Reader) (phase : ReadPhase) :
    Disk Writer Reader :=
  { disk with readers := Function.update disk.readers reader phase }

def Disk.openStep (disk : Disk Writer Reader) (reader : Reader) (path : List String)
    (fault : Option Error) : Option (Disk Writer Reader) :=
  match disk.readers reader, fault with
  | .idle, some error => some (disk.turn reader (.failed error))
  | .idle, none =>
      match disk.volume.entries path with
      | none => some (disk.turn reader (.returned path disk.log.length none))
      | some inode => some (disk.turn reader (.reading path disk.log.length inode []))
  | _, _ => none

/-- A read of no bytes at the end of the file ends the call. -/
def Disk.readStep (disk : Disk Writer Reader) (reader : Reader) (count : Nat)
    (fault : Option Error) : Option (Disk Writer Reader) :=
  match disk.readers reader, fault with
  | .reading _ _ _ _, some error => some (disk.turn reader (.failed error))
  | .reading path moment inode got, none =>
      let rest := (disk.volume.inodes inode).drop got.length
      if rest.isEmpty then some (disk.turn reader (.returned path moment (some got)))
      else if count = 0 then none
      else some (disk.turn reader (.reading path moment inode (got ++ rest.take count)))
  | _, _ => none

def diskStep (calls : Writer → WriteCall) (disk : Disk Writer Reader) :
    DiskAction Writer Reader → Option (Disk Writer Reader)
  | .write writer count fault => disk.writeStep calls writer count fault
  | .openFile reader path fault => disk.openStep reader path fault
  | .read reader count fault => disk.readStep reader count fault

abbrev DiskRun (calls : Writer → WriteCall) (start disk : Disk Writer Reader) : Prop :=
  Run (diskStep calls) (fun _ _ => True) start disk

/-- What a target holds after some changes, each taken as one step. -/
def replay (calls : Writer → WriteCall) (target : List String) (initial : Option Bytes)
    (log : List (TargetChange Writer)) : Option Bytes :=
  log.foldl (fun content change =>
    match change with
    | .renamed writer =>
        if (calls writer).target = target then some (calls writer).bytes else content
    | .removed writer => if (calls writer).target = target then none else content) initial

/-- A path that no call uses for its temporary. -/
def Lasting (calls : Writer → WriteCall) (path : List String) : Prop :=
  ∀ writer, (calls writer).temporary ≠ some path

/-- The random parts of the temporaries are new: no file, no target and no other temporary has
such a name. -/
structure NewNames (calls : Writer → WriteCall) (volume : Volume) : Prop where
  distinct : ∀ writer other temporary, (calls writer).temporary = some temporary →
    (calls other).temporary = some temporary → writer = other
  targets : ∀ writer, Lasting calls (calls writer).target
  absent : ∀ writer temporary, (calls writer).temporary = some temporary →
    volume.entries temporary = none

end Definitions

section Moves

variable {Writer Reader : Type} [DecidableEq Writer] [DecidableEq Reader]

/-- The temporary is whole, and is not written any more. -/
def WritePhase.Staged : WritePhase → Prop
  | .replacing => True
  | .checking _ => True
  | .removing => True
  | .replacingAgain => True
  | .cleaning _ => True
  | _ => False

/-- A step of a call that touches no file. -/
inductive Settles (call : WriteCall) : WritePhase → WritePhase → Prop where
  | prepared : Settles call .start .creating
  | whole {inode written : Nat} : call.bytes.length ≤ written →
      Settles call (.writing inode written) .replacing
  | onward {phase next : WritePhase} : phase.Staged → next.Staged → Settles call phase next
  | stopped {phase : WritePhase} {error : Error} : (∀ result, phase ≠ .returned result) →
      Settles call phase (.returned (.error error))

/-- What a step can do. -/
inductive DiskMove (calls : Writer → WriteCall) (disk : Disk Writer Reader) :
    Disk Writer Reader → Prop where
  | settled {writer : Writer} {phase : WritePhase}
      (settles : Settles (calls writer) (disk.writers writer) phase) :
      DiskMove calls disk (disk.enter writer phase)
  | created {writer : Writer} {temporary : List String}
      (named : (calls writer).temporary = some temporary)
      (phase : disk.writers writer = .creating) :
      DiskMove calls disk ((disk.on (disk.volume.create temporary).1).enter writer
        (.writing (disk.volume.create temporary).2 0))
  | wrote {writer : Writer} {temporary : List String} {inode written count : Nat}
      (named : (calls writer).temporary = some temporary)
      (phase : disk.writers writer = .writing inode written) :
      DiskMove calls disk ((disk.on (disk.volume.append inode
        (((calls writer).bytes.drop written).take count))).enter writer
          (.writing inode (written + (((calls writer).bytes.drop written).take count).length)))
  | renamed {writer : Writer} {temporary : List String} {inode : Nat}
      (named : (calls writer).temporary = some temporary)
      (phase : (disk.writers writer).Staged)
      (found : disk.volume.entries temporary = some inode) :
      DiskMove calls disk (((disk.on (disk.volume.rename temporary (calls writer).target)).note
        (.renamed writer)).enter writer (.returned (.ok ())))
  | removed {writer : Writer} (phase : disk.writers writer = .removing) :
      DiskMove calls disk (((disk.on (disk.volume.unlink (calls writer).target)).note
        (.removed writer)).enter writer .replacingAgain)
  | cleaned {writer : Writer} {temporary : List String} {error : Error}
      (named : (calls writer).temporary = some temporary)
      (phase : disk.writers writer = .cleaning error) :
      DiskMove calls disk ((disk.on (disk.volume.unlink temporary)).enter writer
        (.returned (.error error)))
  | failed {reader : Reader} {error : Error} : DiskMove calls disk (disk.turn reader (.failed error))
  | missed {reader : Reader} {path : List String} (absent : disk.volume.entries path = none) :
      DiskMove calls disk (disk.turn reader (.returned path disk.log.length none))
  | opened {reader : Reader} {path : List String} {inode : Nat}
      (found : disk.volume.entries path = some inode) :
      DiskMove calls disk (disk.turn reader (.reading path disk.log.length inode []))
  | continued {reader : Reader} {path : List String} {moment inode count : Nat} {got : Bytes}
      (phase : disk.readers reader = .reading path moment inode got) :
      DiskMove calls disk (disk.turn reader (.reading path moment inode
        (got ++ ((disk.volume.inodes inode).drop got.length).take count)))
  | finished {reader : Reader} {path : List String} {moment inode : Nat} {got : Bytes}
      (phase : disk.readers reader = .reading path moment inode got)
      (all : (disk.volume.inodes inode).drop got.length = []) :
      DiskMove calls disk (disk.turn reader (.returned path moment (some got)))

variable {calls : Writer → WriteCall} {disk next : Disk Writer Reader} {writer : Writer}
  {reader : Reader} {count : Nat} {fault : Option Error}

theorem renamed_move {temporary : List String} {otherwise : Error → WritePhase}
    (named : (calls writer).temporary = some temporary) (phase : (disk.writers writer).Staged)
    (settles : ∀ error, Settles (calls writer) (disk.writers writer) (otherwise error)) :
    DiskMove calls disk (disk.renamed writer temporary (calls writer).target otherwise) := by
  unfold Disk.renamed
  cases found : disk.volume.entries temporary with
  | none => exact .settled (settles notFound)
  | some inode => exact .renamed named phase found

theorem writeStep_move (taken : disk.writeStep calls writer count fault = some next) :
    DiskMove calls disk next := by
  unfold Disk.writeStep at taken
  cases named : (calls writer).temporary with
  | none =>
      cases phase : disk.writers writer with
      | start =>
          simp only [named, phase, Option.some.injEq] at taken
          exact taken ▸ .settled (phase ▸ .stopped (by simp))
      | _ => simp [named, phase] at taken
  | some temporary =>
      cases phase : disk.writers writer with
      | start =>
          cases fault with
          | none =>
              simp only [named, phase, Option.some.injEq] at taken
              exact taken ▸ .settled (phase ▸ .prepared)
          | some error =>
              simp only [named, phase, Option.some.injEq] at taken
              exact taken ▸ .settled (phase ▸ .stopped (by simp))
      | creating =>
          cases fault with
          | none =>
              simp only [named, phase, Option.some.injEq] at taken
              exact taken ▸ .created named phase
          | some error =>
              simp only [named, phase, Option.some.injEq] at taken
              exact taken ▸ .settled (phase ▸ .stopped (by simp))
      | writing inode written =>
          simp only [named, phase] at taken
          split at taken
          · cases fault with
            | some error => exact Option.some.inj taken ▸ .settled (phase ▸ .stopped (by simp))
            | none =>
                dsimp only at taken
                split at taken
                · cases taken
                · exact Option.some.inj taken ▸ .wrote named phase
          · rename_i full
            exact Option.some.inj taken ▸ .settled (phase ▸ .whole (Nat.le_of_not_lt full))
      | replacing =>
          cases fault with
          | none =>
              simp only [named, phase, Option.some.injEq] at taken
              exact taken ▸ renamed_move named (by rw [phase]; trivial)
                fun error => phase ▸ .onward trivial trivial
          | some error =>
              simp only [named, phase, Option.some.injEq] at taken
              exact taken ▸ .settled (phase ▸ .onward trivial trivial)
      | checking error =>
          simp only [named, phase] at taken
          split at taken
          · exact Option.some.inj taken ▸ .settled (phase ▸ .onward trivial trivial)
          · exact Option.some.inj taken ▸ .settled (phase ▸ .onward trivial trivial)
      | removing =>
          cases fault with
          | none =>
              simp only [named, phase] at taken
              split at taken
              · exact Option.some.inj taken ▸ .settled (phase ▸ .stopped (by simp))
              · exact Option.some.inj taken ▸ .removed phase
          | some error =>
              simp only [named, phase, Option.some.injEq] at taken
              exact taken ▸ .settled (phase ▸ .stopped (by simp))
      | replacingAgain =>
          cases fault with
          | none =>
              simp only [named, phase, Option.some.injEq] at taken
              exact taken ▸ renamed_move named (by rw [phase]; trivial)
                fun error => phase ▸ .stopped (by simp)
          | some error =>
              simp only [named, phase, Option.some.injEq] at taken
              exact taken ▸ .settled (phase ▸ .stopped (by simp))
      | cleaning error =>
          cases fault with
          | none =>
              simp only [named, phase, Option.some.injEq] at taken
              exact taken ▸ .cleaned named phase
          | some other =>
              simp only [named, phase, Option.some.injEq] at taken
              exact taken ▸ .settled (phase ▸ .stopped (by simp))
      | returned result => simp [named, phase] at taken

theorem diskStep_move {action : DiskAction Writer Reader}
    (taken : diskStep calls disk action = some next) : DiskMove calls disk next := by
  cases action with
  | write writer count fault => exact writeStep_move taken
  | openFile reader path fault =>
      simp only [diskStep, Disk.openStep] at taken
      split at taken
      · exact Option.some.inj taken ▸ .failed
      · split at taken
        · rename_i absent
          exact Option.some.inj taken ▸ .missed absent
        · rename_i inode found
          exact Option.some.inj taken ▸ .opened found
      · cases taken
  | read reader count fault =>
      simp only [diskStep, Disk.readStep] at taken
      split at taken
      · exact Option.some.inj taken ▸ .failed
      · rename_i path moment inode got phase
        split at taken
        · rename_i all
          exact Option.some.inj taken ▸ .finished phase (by simpa using all)
        · split at taken
          · cases taken
          · exact Option.some.inj taken ▸ .continued phase
      · cases taken

end Moves

section Settling

variable {call : WriteCall} {phase next : WritePhase}

theorem Settles.early (settles : Settles call phase next)
    (early : next = .start ∨ next = .creating) : phase = .start := by
  cases settles with
  | prepared => rfl
  | whole => simp at early
  | onward _ staged => rcases early with rfl | rfl <;> exact absurd staged id
  | stopped => simp at early

theorem Settles.not_writing (settles : Settles call phase next) (inode written : Nat) :
    next ≠ .writing inode written := by
  cases settles with
  | prepared => simp
  | whole => simp
  | onward _ staged =>
      rintro rfl
      exact staged
  | stopped => simp

theorem Settles.staged (settles : Settles call phase next) (staged : next.Staged) :
    phase.Staged ∨ ∃ inode written, phase = .writing inode written ∧
      call.bytes.length ≤ written := by
  cases settles with
  | prepared => exact absurd staged id
  | whole full => exact .inr ⟨_, _, rfl, full⟩
  | onward before _ => exact .inl before
  | stopped => exact absurd staged id

theorem Settles.unreturned (settles : Settles call phase next) :
    phase ≠ .returned (.ok ()) ∧ next ≠ .returned (.ok ()) := by
  cases settles with
  | prepared => simp
  | whole => simp
  | onward before after =>
      constructor
      · rintro rfl
        exact before
      · rintro rfl
        exact after
  | stopped active => exact ⟨active (.ok ()), by simp⟩

end Settling

section Soundness

variable {Writer Reader : Type} [DecidableEq Writer] [DecidableEq Reader]

/-- What holds on the way: a temporary belongs to its call alone until it is whole, a lasting
path holds what the changes so far make of it, and what a reader has open stays as it is. -/
structure Disk.Sound (calls : Writer → WriteCall) (volume : Volume)
    (disk : Disk Writer Reader) : Prop where
  absent : ∀ writer temporary, (calls writer).temporary = some temporary →
    disk.writers writer = .start ∨ disk.writers writer = .creating →
      disk.volume.entries temporary = none
  begun : ∀ writer temporary inode written, (calls writer).temporary = some temporary →
    disk.writers writer = .writing inode written → disk.volume.entries temporary = some inode ∧
      disk.volume.inodes inode = (calls writer).bytes.take written
  whole : ∀ writer temporary inode, (calls writer).temporary = some temporary →
    (disk.writers writer).Staged → disk.volume.entries temporary = some inode →
      disk.volume.inodes inode = (calls writer).bytes
  isolated : ∀ writer temporary inode written path, (calls writer).temporary = some temporary →
    disk.writers writer = .writing inode written → disk.volume.entries path = some inode →
      path = temporary
  unread : ∀ writer temporary inode written reader path moment got,
    (calls writer).temporary = some temporary → disk.writers writer = .writing inode written →
      disk.readers reader = .reading path moment inode got → path = temporary
  named : ∀ writer inode written, disk.writers writer = .writing inode written →
    ∃ temporary, (calls writer).temporary = some temporary
  held : ∀ path, Lasting calls path →
    disk.volume.content path = replay calls path (volume.content path) disk.log
  opened : ∀ reader path moment inode got, disk.readers reader = .reading path moment inode got →
    inode < disk.volume.nextInode ∧ moment ≤ disk.log.length ∧ (Lasting calls path →
      replay calls path (volume.content path) (disk.log.take moment) =
          some (disk.volume.inodes inode) ∧ got <+: disk.volume.inodes inode)
  answered : ∀ reader path moment result,
    disk.readers reader = .returned path moment result → moment ≤ disk.log.length ∧
      (Lasting calls path →
        result = replay calls path (volume.content path) (disk.log.take moment))
  done : ∀ writer, .renamed writer ∈ disk.log ↔ disk.writers writer = .returned (.ok ())

variable {calls : Writer → WriteCall} {volume : Volume} {disk next : Disk Writer Reader}
  {writer : Writer} {reader : Reader} {temporary path : List String} {phase : WritePhase}

omit [DecidableEq Reader] in
@[simp] theorem enter_writers (disk : Disk Writer Reader) (writer other : Writer)
    (phase : WritePhase) : (disk.enter writer phase).writers other =
      if other = writer then phase else disk.writers other :=
  Function.update_apply disk.writers writer phase other

omit [DecidableEq Writer] in
@[simp] theorem turn_readers (disk : Disk Writer Reader) (reader other : Reader)
    (phase : ReadPhase) : (disk.turn reader phase).readers other =
      if other = reader then phase else disk.readers other :=
  Function.update_apply disk.readers reader phase other

omit [DecidableEq Reader] in
theorem enter_writing {other : Writer} {inode written : Nat}
    (never : ∀ inode written, phase ≠ .writing inode written)
    (writing : (disk.enter writer phase).writers other = .writing inode written) :
    other ≠ writer ∧ disk.writers other = .writing inode written := by
  rw [enter_writers] at writing
  by_cases same : other = writer
  · rw [if_pos same] at writing
    exact absurd writing (never inode written)
  · rw [if_neg same] at writing
    exact ⟨same, writing⟩

omit [DecidableEq Reader] in
theorem enter_other {other : Writer} {old : WritePhase} (different : phase ≠ old)
    (entered : (disk.enter writer phase).writers other = old) :
    other ≠ writer ∧ disk.writers other = old := by
  rw [enter_writers] at entered
  by_cases same : other = writer
  · rw [if_pos same] at entered
    exact absurd entered different
  · rw [if_neg same] at entered
    exact ⟨same, entered⟩

omit [DecidableEq Reader] in
theorem Disk.Sound.settled (sound : disk.Sound calls volume)
    (settles : Settles (calls writer) (disk.writers writer) phase) :
    (disk.enter writer phase).Sound calls volume where
  absent other temporary named early := by
    rw [enter_writers] at early
    by_cases same : other = writer
    · subst same
      rw [if_pos rfl] at early
      exact sound.absent other temporary named (.inl (settles.early early))
    · rw [if_neg same] at early
      exact sound.absent other temporary named early
  begun other temporary inode written named writing :=
    sound.begun other temporary inode written named
      (enter_writing settles.not_writing writing).2
  whole other temporary inode named staged found := by
    rw [enter_writers] at staged
    by_cases same : other = writer
    · subst same
      rw [if_pos rfl] at staged
      rcases settles.staged staged with before | ⟨file, written, writing, full⟩
      · exact sound.whole other temporary inode named before found
      · obtain ⟨here, content⟩ := sound.begun other temporary file written named writing
        cases Option.some.inj (found.symm.trans here)
        exact content.trans (List.take_of_length_le full)
    · rw [if_neg same] at staged
      exact sound.whole other temporary inode named staged found
  isolated other temporary inode written path named writing found :=
    sound.isolated other temporary inode written path named
      (enter_writing settles.not_writing writing).2 found
  unread other temporary inode written reader path moment got named writing reading :=
    sound.unread other temporary inode written reader path moment got named
      (enter_writing settles.not_writing writing).2 reading
  named other inode written writing :=
    sound.named other inode written (enter_writing settles.not_writing writing).2
  held := sound.held
  opened := sound.opened
  answered := sound.answered
  done other := by
    rw [enter_writers]
    by_cases same : other = writer
    · subst same
      rw [if_pos rfl]
      have before := sound.done other
      constructor
      · intro member
        exact absurd (before.mp member) settles.unreturned.1
      · intro returned
        exact absurd returned settles.unreturned.2
    · rw [if_neg same]
      exact sound.done other

theorem create_absent {volume : Volume} (absent : volume.entries path = none) :
    (volume.create path).2 = volume.nextInode ∧
      (volume.create path).1.entries =
        Function.update volume.entries path (some volume.nextInode) ∧
      (volume.create path).1.inodes = Function.update volume.inodes volume.nextInode [] ∧
      (volume.create path).1.nextInode = volume.nextInode + 1 := by
  unfold Volume.create
  rw [absent]
  exact ⟨rfl, rfl, rfl, rfl⟩

omit [DecidableEq Reader] in
theorem Disk.Sound.created (sound : disk.Sound calls volume) (names : NewNames calls volume)
    (known : (calls writer).temporary = some temporary)
    (creating : disk.writers writer = .creating) :
    ((disk.on (disk.volume.create temporary).1).enter writer
      (.writing (disk.volume.create temporary).2 0)).Sound calls volume := by
  obtain ⟨fresh, entries, inodes, next⟩ :=
    create_absent (sound.absent writer temporary known (.inr creating))
  rw [fresh]
  have none := sound.absent writer temporary known (.inr creating)
  have apart : ∀ other temp, (calls other).temporary = some temp → other ≠ writer →
      temp ≠ temporary := by
    rintro other _ theirs different rfl
    exact different (names.distinct other writer _ theirs known)
  -- The new file has a number that nothing refers to yet.
  have kept : ∀ inode, inode < disk.volume.nextInode →
      (disk.volume.create temporary).1.inodes inode = disk.volume.inodes inode := by
    intro inode below
    rw [inodes, Function.update_apply, if_neg below.ne]
  have elsewhere : ∀ path, path ≠ temporary →
      (disk.volume.create temporary).1.entries path = disk.volume.entries path := by
    intro path different
    rw [entries, Function.update_apply, if_neg different]
  refine ⟨?_, ?_, ?_, ?_, ?_, ?_, ?_, ?_, ?_, ?_⟩
  · intro other temp named early
    have others : other ≠ writer ∧
        (disk.writers other = .start ∨ disk.writers other = .creating) := by
      rcases early with start | create
      · exact (enter_other (by simp) start).imp id .inl
      · exact (enter_other (by simp) create).imp id .inr
    exact (elsewhere temp (apart other temp named others.1)).trans
      (sound.absent other temp named others.2)
  · intro other temp inode written named writing
    rw [enter_writers] at writing
    by_cases same : other = writer
    · subst same
      rw [if_pos rfl] at writing
      cases writing
      cases Option.some.inj (named.symm.trans known)
      refine ⟨?_, ?_⟩
      · exact (congrFun entries _).trans (Function.update_self ..)
      · exact (congrFun inodes _).trans (Function.update_self ..)
    · rw [if_neg same] at writing
      obtain ⟨here, content⟩ := sound.begun other temp inode written named writing
      refine ⟨(elsewhere temp (apart other temp named same)).trans here, ?_⟩
      exact (kept inode (disk.volume.bounded temp inode here)).trans content
  · intro other temp inode named staged found
    rw [enter_writers] at staged
    by_cases same : other = writer
    · rw [if_pos same] at staged
      exact absurd staged id
    · rw [if_neg same] at staged
      have here := (elsewhere temp (apart other temp named same)).symm.trans found
      exact (kept inode (disk.volume.bounded temp inode here)).trans
        (sound.whole other temp inode named staged here)
  · intro other temp inode written path named writing found
    rw [enter_writers] at writing
    by_cases same : other = writer
    · subst same
      rw [if_pos rfl] at writing
      cases writing
      cases Option.some.inj (named.symm.trans known)
      by_contra different
      exact absurd (disk.volume.bounded path _ ((elsewhere path different).symm.trans found))
        (lt_irrefl _)
    · rw [if_neg same] at writing
      obtain ⟨here, -⟩ := sound.begun other temp inode written named writing
      by_cases new : path = temporary
      · subst new
        have number : inode = disk.volume.nextInode := by
          have stored := (congrFun entries path).trans (Function.update_self ..)
          exact Option.some.inj (found.symm.trans stored)
        exact absurd (disk.volume.bounded temp inode here) (by omega)
      · exact sound.isolated other temp inode written path named writing
          ((elsewhere path new).symm.trans found)
  · intro other temp inode written reader path moment got named writing reading
    rw [enter_writers] at writing
    by_cases same : other = writer
    · rw [if_pos same] at writing
      cases writing
      exact absurd (sound.opened reader path moment _ got reading).1 (lt_irrefl _)
    · rw [if_neg same] at writing
      exact sound.unread other temp inode written reader path moment got named writing reading
  · intro other inode written writing
    rw [enter_writers] at writing
    by_cases same : other = writer
    · subst same
      exact ⟨temporary, known⟩
    · rw [if_neg same] at writing
      exact sound.named other inode written writing
  · intro path lasting
    have here : path ≠ temporary := by
      rintro rfl
      exact lasting writer known
    refine Eq.trans ?_ (sound.held path lasting)
    unfold Volume.content
    change ((disk.volume.create temporary).1.entries path).map
      (disk.volume.create temporary).1.inodes = _
    rw [elsewhere path here]
    cases found : disk.volume.entries path with
    | none => rfl
    | some inode => exact congrArg some (kept inode (disk.volume.bounded path inode found))
  · intro reader path moment inode got reading
    obtain ⟨below, early, content⟩ := sound.opened reader path moment inode got reading
    refine ⟨?_, early, ?_⟩
    · exact below.trans (next ▸ Nat.lt_succ_self _)
    · change Lasting calls path → _ = some ((disk.volume.create temporary).1.inodes inode) ∧
        got <+: (disk.volume.create temporary).1.inodes inode
      rw [kept inode below]
      exact content
  · exact sound.answered
  · intro other
    rw [enter_writers]
    by_cases same : other = writer
    · subst same
      have before := sound.done other
      rw [creating] at before
      rw [if_pos rfl]
      exact before.trans (by simp)
    · rw [if_neg same]
      exact sound.done other

omit [DecidableEq Reader] in
theorem Disk.Sound.wrote (sound : disk.Sound calls volume) (names : NewNames calls volume)
    {inode written count : Nat} (known : (calls writer).temporary = some temporary)
    (writing : disk.writers writer = .writing inode written) :
    ((disk.on (disk.volume.append inode
      (((calls writer).bytes.drop written).take count))).enter writer
        (.writing inode (written + (((calls writer).bytes.drop written).take count).length))).Sound
          calls volume := by
  obtain ⟨here, content⟩ := sound.begun writer temporary inode written known writing
  generalize sent : ((calls writer).bytes.drop written).take count = chunk
  have front : chunk = ((calls writer).bytes.drop written).take chunk.length :=
    List.prefix_iff_eq_take.mp (sent ▸ List.take_prefix _ _)
  have others : ∀ other temp file, (calls other).temporary = some temp → other ≠ writer →
      disk.volume.entries temp = some file → file ≠ inode := by
    rintro other temp file named different found rfl
    cases sound.isolated writer temporary file written temp known writing found
    exact different (names.distinct other writer _ named known)
  have kept : ∀ file, file ≠ inode →
      (disk.volume.append inode chunk).inodes file = disk.volume.inodes file := by
    intro file different
    rw [append_inodes, if_neg different]
  refine ⟨?_, ?_, ?_, ?_, ?_, ?_, ?_, ?_, ?_, ?_⟩
  · intro other temp named early
    rcases early with start | create
    · exact sound.absent other temp named (.inl (enter_other (by simp) start).2)
    · exact sound.absent other temp named (.inr (enter_other (by simp) create).2)
  · intro other temp file step named again
    rw [enter_writers] at again
    by_cases same : other = writer
    · subst same
      rw [if_pos rfl] at again
      cases again
      cases Option.some.inj (named.symm.trans known)
      refine ⟨here, ?_⟩
      change (disk.volume.append inode chunk).inodes inode = _
      rw [append_inodes, if_pos rfl, content, List.take_add, ← front]
    · rw [if_neg same] at again
      obtain ⟨found, partly⟩ := sound.begun other temp file step named again
      exact ⟨found, (kept file (others other temp file named same found)).trans partly⟩
  · intro other temp file named staged found
    rw [enter_writers] at staged
    by_cases same : other = writer
    · rw [if_pos same] at staged
      exact absurd staged id
    · rw [if_neg same] at staged
      exact (kept file (others other temp file named same found)).trans
        (sound.whole other temp file named staged found)
  · intro other temp file step path named again found
    rw [enter_writers] at again
    by_cases same : other = writer
    · subst same
      rw [if_pos rfl] at again
      cases again
      exact sound.isolated other temp inode written path named writing found
    · rw [if_neg same] at again
      exact sound.isolated other temp file step path named again found
  · intro other temp file step reader path moment got named again reading
    rw [enter_writers] at again
    by_cases same : other = writer
    · subst same
      rw [if_pos rfl] at again
      cases again
      exact sound.unread other temp inode written reader path moment got named writing reading
    · rw [if_neg same] at again
      exact sound.unread other temp file step reader path moment got named again reading
  · intro other file step again
    rw [enter_writers] at again
    by_cases same : other = writer
    · subst same
      exact ⟨temporary, known⟩
    · rw [if_neg same] at again
      exact sound.named other file step again
  · intro path lasting
    refine Eq.trans ?_ (sound.held path lasting)
    unfold Volume.content
    change (disk.volume.entries path).map (disk.volume.append inode chunk).inodes = _
    cases found : disk.volume.entries path with
    | none => rfl
    | some file =>
        refine congrArg some (kept file ?_)
        rintro rfl
        cases sound.isolated writer temporary file written path known writing found
        exact lasting writer known
  · intro reader path moment file got reading
    obtain ⟨below, early, read⟩ := sound.opened reader path moment file got reading
    refine ⟨below, early, ?_⟩
    intro lasting
    have different : file ≠ inode := by
      rintro rfl
      cases sound.unread writer temporary file written reader path moment got known writing reading
      exact lasting writer known
    change _ = some ((disk.volume.append inode chunk).inodes file) ∧
      got <+: (disk.volume.append inode chunk).inodes file
    rw [kept file different]
    exact read lasting
  · exact sound.answered
  · intro other
    rw [enter_writers]
    by_cases same : other = writer
    · subst same
      have before := sound.done other
      rw [writing] at before
      rw [if_pos rfl]
      exact before.trans (by simp)
    · rw [if_neg same]
      exact sound.done other

/-- What is left to show of a step of a call that changes directory entries only. -/
structure Relinks (calls : Writer → WriteCall) (volume : Volume) (disk : Disk Writer Reader)
    (writer : Writer) (changed : Volume) (changes : List (TargetChange Writer))
    (entered : WritePhase) : Prop where
  inodes : changed.inodes = disk.volume.inodes
  nextInode : changed.nextInode = disk.volume.nextInode
  late : entered ≠ .start ∧ entered ≠ .creating ∧ ∀ inode written, entered ≠ .writing inode written
  temporaries : ∀ other temp, (calls other).temporary = some temp → other ≠ writer →
    changed.entries temp = disk.volume.entries temp
  own : ∀ temp inode, (calls writer).temporary = some temp → entered.Staged →
    changed.entries temp = some inode → disk.volume.inodes inode = (calls writer).bytes
  isolated : ∀ other temp inode written path, other ≠ writer →
    (calls other).temporary = some temp → disk.writers other = .writing inode written →
      changed.entries path = some inode → path = temp
  held : ∀ path, Lasting calls path → changed.content path =
    replay calls path (disk.volume.content path) changes
  done : ∀ other, .renamed other ∈ disk.log ++ changes ↔
    (disk.enter writer entered).writers other = .returned (.ok ())

omit [DecidableEq Reader] in
theorem Disk.Sound.relinked (sound : disk.Sound calls volume) {changed : Volume}
    {changes : List (TargetChange Writer)} {entered : WritePhase}
    (relinks : Relinks calls volume disk writer changed changes entered) :
    (({ disk with volume := changed, log := disk.log ++ changes } : Disk Writer Reader).enter writer
      entered).Sound calls volume := by
  obtain ⟨notStart, notCreating, never⟩ := relinks.late
  refine ⟨?_, ?_, ?_, ?_, ?_, ?_, ?_, ?_, ?_, relinks.done⟩
  · intro other temp named early
    have others : other ≠ writer ∧
        (disk.writers other = .start ∨ disk.writers other = .creating) := by
      rcases early with start | create
      · exact (enter_other notStart start).imp id .inl
      · exact (enter_other notCreating create).imp id .inr
    exact (relinks.temporaries other temp named others.1).trans
      (sound.absent other temp named others.2)
  · intro other temp inode written named writing
    obtain ⟨different, before⟩ := enter_writing never writing
    obtain ⟨here, content⟩ := sound.begun other temp inode written named before
    exact ⟨(relinks.temporaries other temp named different).trans here,
      (congrFun relinks.inodes inode).trans content⟩
  · intro other temp inode named staged found
    refine (congrFun relinks.inodes inode).trans ?_
    rw [enter_writers] at staged
    by_cases same : other = writer
    · subst same
      rw [if_pos rfl] at staged
      exact relinks.own temp inode named staged found
    · rw [if_neg same] at staged
      exact sound.whole other temp inode named staged
        ((relinks.temporaries other temp named same).symm.trans found)
  · intro other temp inode written path named writing found
    obtain ⟨different, before⟩ := enter_writing never writing
    exact relinks.isolated other temp inode written path different named before found
  · intro other temp inode written reader path moment got named writing reading
    exact sound.unread other temp inode written reader path moment got named
      (enter_writing never writing).2 reading
  · intro other inode written writing
    exact sound.named other inode written (enter_writing never writing).2
  · intro path lasting
    change changed.content path = replay calls path (volume.content path) (disk.log ++ changes)
    rw [relinks.held path lasting, sound.held path lasting]
    unfold replay
    rw [List.foldl_append]
  · intro reader path moment inode got reading
    obtain ⟨below, early, read⟩ := sound.opened reader path moment inode got reading
    refine ⟨?_, ?_, ?_⟩
    · change inode < changed.nextInode
      rw [relinks.nextInode]
      exact below
    · change moment ≤ (disk.log ++ changes).length
      rw [List.length_append]
      exact Nat.le_add_right_of_le early
    · change Lasting calls path → replay calls path (volume.content path)
        ((disk.log ++ changes).take moment) = some (changed.inodes inode) ∧
          got <+: changed.inodes inode
      rw [List.take_append_of_le_length early, relinks.inodes]
      exact read
  · intro reader path moment result returned
    obtain ⟨early, read⟩ := sound.answered reader path moment result returned
    refine ⟨?_, ?_⟩
    · change moment ≤ (disk.log ++ changes).length
      rw [List.length_append]
      exact Nat.le_add_right_of_le early
    · change Lasting calls path → result = replay calls path (volume.content path)
        ((disk.log ++ changes).take moment)
      rw [List.take_append_of_le_length early]
      exact read

omit [DecidableEq Reader] in
theorem Disk.Sound.renamed (sound : disk.Sound calls volume) (names : NewNames calls volume)
    {inode : Nat} (known : (calls writer).temporary = some temporary)
    (staged : (disk.writers writer).Staged)
    (found : disk.volume.entries temporary = some inode) :
    (((disk.on (disk.volume.rename temporary (calls writer).target)).note
      (.renamed writer)).enter writer (.returned (.ok ()))).Sound calls volume := by
  have content := sound.whole writer temporary inode known staged found
  have others : ∀ other temp, (calls other).temporary = some temp → other ≠ writer →
      temp ≠ temporary := by
    rintro other _ named different rfl
    exact different (names.distinct other writer _ named known)
  have targets : ∀ other temp, (calls other).temporary = some temp →
      temp ≠ (calls writer).target := by
    rintro other _ named rfl
    exact names.targets writer other named
  refine sound.relinked ⟨rfl, rfl, ?_, ?_, ?_, ?_, ?_, ?_⟩
  · simp
  · intro other temp named different
    change (if _ then _ else _) = _
    rw [if_neg (targets other temp named), if_neg (others other temp named different)]
  · exact fun _ _ _ returned => absurd returned id
  · intro other temp file written path different named writing linked
    change (if _ then _ else _) = _ at linked
    split_ifs at linked
    · cases Option.some.inj (linked.symm.trans found)
      exact absurd (sound.isolated other temp inode written temporary named writing found).symm
        (others other temp named different)
    · exact sound.isolated other temp file written path named writing linked
  · intro path lasting
    have apart : path ≠ temporary := by
      rintro rfl
      exact lasting writer known
    change (if path = (calls writer).target then _ else _ : Option Nat).map disk.volume.inodes =
      if (calls writer).target = path then _ else _
    by_cases target : path = (calls writer).target
    · rw [if_pos target, if_pos target.symm, found]
      exact congrArg some content
    · rw [if_neg target, if_neg (Ne.symm target), if_neg apart]
      rfl
  · intro other
    rw [List.mem_append, List.mem_singleton, enter_writers]
    by_cases same : other = writer
    · simp [same]
    · rw [if_neg same, TargetChange.renamed.injEq, or_iff_left same]
      exact sound.done other

omit [DecidableEq Reader] in
theorem Disk.Sound.removed (sound : disk.Sound calls volume) (names : NewNames calls volume)
    (phase : disk.writers writer = .removing) :
    (((disk.on (disk.volume.unlink (calls writer).target)).note (.removed writer)).enter writer
      .replacingAgain).Sound calls volume := by
  have targets : ∀ other temp, (calls other).temporary = some temp →
      (disk.volume.unlink (calls writer).target).entries temp = disk.volume.entries temp := by
    intro other temp named
    rw [unlink_entries, if_neg]
    rintro rfl
    exact names.targets writer other named
  refine sound.relinked ⟨rfl, rfl, ?_, ?_, ?_, ?_, ?_, ?_⟩
  · simp
  · exact fun other temp named _ => targets other temp named
  · intro temp inode named _ found
    exact sound.whole writer temp inode named (phase ▸ trivial)
      ((targets writer temp named).symm.trans found)
  · intro other temp inode written path _ named writing found
    change (disk.volume.unlink (calls writer).target).entries path = some inode at found
    rw [unlink_entries] at found
    split_ifs at found
    exact sound.isolated other temp inode written path named writing found
  · intro path lasting
    change ((disk.volume.unlink (calls writer).target).entries path).map disk.volume.inodes = _
    rw [unlink_entries]
    change (if path = (calls writer).target then _ else _ : Option Nat).map disk.volume.inodes =
      if (calls writer).target = path then _ else _
    by_cases target : path = (calls writer).target
    · rw [if_pos target, if_pos target.symm]
      rfl
    · rw [if_neg target, if_neg (Ne.symm target)]
      rfl
  · intro other
    rw [List.mem_append, List.mem_singleton, enter_writers]
    have before := sound.done other
    by_cases same : other = writer
    · subst same
      rw [phase] at before
      rw [if_pos rfl]
      simpa using before
    · rw [if_neg same]
      simpa using before

omit [DecidableEq Reader] in
theorem Disk.Sound.cleaned (sound : disk.Sound calls volume) (names : NewNames calls volume)
    {error : Error} (known : (calls writer).temporary = some temporary)
    (phase : disk.writers writer = .cleaning error) :
    ((disk.on (disk.volume.unlink temporary)).enter writer
      (.returned (.error error))).Sound calls volume := by
  have relinked := @Disk.Sound.relinked _ _ _ calls volume disk writer sound
    (disk.volume.unlink temporary) [] (.returned (.error error)) ⟨rfl, rfl, ?_, ?_, ?_, ?_, ?_, ?_⟩
  · rw [List.append_nil] at relinked
    exact relinked
  · simp
  · intro other temp named different
    rw [unlink_entries, if_neg]
    rintro rfl
    exact different (names.distinct other writer _ named known)
  · exact fun _ _ _ returned => absurd returned id
  · intro other temp inode written path _ named writing found
    rw [unlink_entries] at found
    split_ifs at found
    exact sound.isolated other temp inode written path named writing found
  · intro path lasting
    unfold Volume.content
    rw [unlink_entries, if_neg]
    · rfl
    · rintro rfl
      exact lasting writer known
  · intro other
    rw [List.append_nil, enter_writers]
    have before := sound.done other
    by_cases same : other = writer
    · subst same
      rw [phase] at before
      rw [if_pos rfl]
      simpa using before
    · rw [if_neg same]
      exact before

omit [DecidableEq Writer] in
/-- A reader moves on its own. -/
theorem Disk.Sound.turned (sound : disk.Sound calls volume) {phase : ReadPhase}
    (opened : ∀ path moment inode got, phase = .reading path moment inode got →
      inode < disk.volume.nextInode ∧ moment ≤ disk.log.length ∧ (Lasting calls path →
        replay calls path (volume.content path) (disk.log.take moment) =
            some (disk.volume.inodes inode) ∧ got <+: disk.volume.inodes inode))
    (unread : ∀ writer temporary inode written path moment got,
      (calls writer).temporary = some temporary → disk.writers writer = .writing inode written →
        phase = .reading path moment inode got → path = temporary)
    (answered : ∀ path moment result, phase = .returned path moment result →
      moment ≤ disk.log.length ∧ (Lasting calls path →
        result = replay calls path (volume.content path) (disk.log.take moment))) :
    (disk.turn reader phase).Sound calls volume where
  absent := sound.absent
  begun := sound.begun
  whole := sound.whole
  isolated := sound.isolated
  unread writer temporary inode written other path moment got named writing reading := by
    rw [turn_readers] at reading
    by_cases same : other = reader
    · rw [if_pos same] at reading
      exact unread writer temporary inode written path moment got named writing reading
    · rw [if_neg same] at reading
      exact sound.unread writer temporary inode written other path moment got named writing reading
  named := sound.named
  held := sound.held
  opened other path moment inode got reading := by
    rw [turn_readers] at reading
    by_cases same : other = reader
    · rw [if_pos same] at reading
      exact opened path moment inode got reading
    · rw [if_neg same] at reading
      exact sound.opened other path moment inode got reading
  answered other path moment result returned := by
    rw [turn_readers] at returned
    by_cases same : other = reader
    · rw [if_pos same] at returned
      exact answered path moment result returned
    · rw [if_neg same] at returned
      exact sound.answered other path moment result returned
  done := sound.done

/-- What has been read of a file, with the next bytes, is a part of it again. -/
theorem prefix_continued {content got : Bytes} (part : got <+: content) (count : Nat) :
    got ++ (content.drop got.length).take count <+: content := by
  obtain ⟨rest, rfl⟩ := part
  rw [List.drop_left, List.prefix_append_right_inj]
  exact List.take_prefix count rest

theorem Disk.Sound.move (sound : disk.Sound calls volume) (names : NewNames calls volume)
    (move : DiskMove calls disk next) : next.Sound calls volume := by
  cases move with
  | settled settles => exact sound.settled settles
  | created named phase => exact sound.created names named phase
  | wrote named phase => exact sound.wrote names named phase
  | renamed named phase found => exact sound.renamed names named phase found
  | removed phase => exact sound.removed names phase
  | cleaned named phase => exact sound.cleaned names named phase
  | failed => exact sound.turned (by simp) (by simp) (by simp)
  | missed absent =>
      refine sound.turned (by simp) (by simp) ?_
      intro path moment result returned
      cases returned
      refine ⟨le_refl _, ?_⟩
      intro lasting
      rw [List.take_length, ← sound.held _ lasting, Volume.content, absent]
      rfl
  | opened found =>
      refine sound.turned ?_ ?_ (by simp)
      · intro path moment inode got reading
        cases reading
        refine ⟨disk.volume.bounded _ _ found, le_refl _, ?_⟩
        intro lasting
        rw [List.take_length, ← sound.held _ lasting, Volume.content, found]
        exact ⟨rfl, List.nil_prefix⟩
      · intro writer temporary inode written path moment got named writing reading
        cases reading
        exact sound.isolated writer temporary _ written _ named writing found
  | continued phase =>
      refine sound.turned ?_ ?_ (by simp)
      · intro path moment inode got reading
        cases reading
        obtain ⟨below, early, read⟩ := sound.opened _ _ _ _ _ phase
        refine ⟨below, early, ?_⟩
        intro lasting
        exact ⟨(read lasting).1, prefix_continued (read lasting).2 _⟩
      · intro writer temporary inode written path moment got named writing reading
        cases reading
        exact sound.unread writer temporary _ written _ _ _ _ named writing phase
  | finished phase all =>
      refine sound.turned (by simp) (by simp) ?_
      intro path moment result returned
      cases returned
      obtain ⟨-, early, read⟩ := sound.opened _ _ _ _ _ phase
      refine ⟨early, ?_⟩
      intro lasting
      obtain ⟨content, part⟩ := read lasting
      rw [content, part.eq_of_length_le (List.drop_eq_nil_iff.mp all)]

end Soundness

section Alone

variable {Writer Reader : Type} [DecidableEq Writer] [DecidableEq Reader]
  {calls : Writer → WriteCall} {volume : Volume} {disk : Disk Writer Reader} {writer : Writer}
  {source target temporary path : List String}

theorem content_create (absent : volume.entries path = none) (other : List String) :
    (volume.create path).1.content other = Files.put volume.content path [] other := by
  obtain ⟨-, entries, inodes, -⟩ := create_absent absent
  unfold Volume.content Files.put
  rw [entries, Function.update_apply]
  by_cases same : other = path
  · rw [if_pos same, if_pos same, Option.map_some, inodes, Function.update_self]
  · rw [if_neg same, if_neg same]
    dsimp only
    cases found : volume.entries other with
    | none => rfl
    | some inode =>
        have below := volume.bounded other inode found
        rw [Option.map_some, Option.map_some, inodes, Function.update_apply, if_neg below.ne]

theorem content_append {inode : Nat} (here : volume.entries path = some inode)
    (sole : ∀ other, volume.entries other = some inode → other = path) (bytes : Bytes)
    (other : List String) : (volume.append inode bytes).content other =
      Files.put volume.content path (volume.inodes inode ++ bytes) other := by
  unfold Volume.content Files.put
  change (volume.entries other).map (volume.append inode bytes).inodes = _
  by_cases same : other = path
  · subst same
    rw [if_pos rfl, here, Option.map_some, append_inodes, if_pos rfl]
  · rw [if_neg same]
    dsimp only
    cases found : volume.entries other with
    | none => rfl
    | some file =>
        have different : file ≠ inode := by
          rintro rfl
          exact same (sole other found)
        rw [Option.map_some, Option.map_some, append_inodes, if_neg different]

theorem content_rename (volume : Volume) (source target other : List String) :
    (volume.rename source target).content other =
      Files.rename volume.content source target other := by
  unfold Volume.content Files.rename Volume.rename
  dsimp only
  split_ifs <;> rfl

theorem content_unlink (volume : Volume) (path other : List String) :
    (volume.unlink path).content other = Files.delete volume.content path other := by
  unfold Volume.content Files.delete
  rw [unlink_entries]
  split_ifs <;> rfl

/-- Only one call takes steps. -/
def Alone (writer : Writer) (_ : Disk Writer Reader) (action : DiskAction Writer Reader) : Prop :=
  ∃ count fault, action = .write writer count fault

theorem alone_step {start current next : Disk Writer Reader} (count : Nat) (fault : Option Error)
    (run : Run (diskStep calls) (Alone writer) start current)
    (taken : current.writeStep calls writer count fault = some next) :
    Run (diskStep calls) (Alone writer) start next :=
  run.tail ⟨count, fault, rfl⟩ taken

/-- A call that meets no fault stages its temporary. -/
theorem alone_staged (named : (calls writer).temporary = some temporary)
    (phase : disk.writers writer = .start) (absent : disk.volume.entries temporary = none) :
    ∃ staged : Disk Writer Reader, Run (diskStep calls) (Alone writer) disk staged ∧
      staged.writers writer = .replacing ∧
      staged.volume.content = Files.put disk.volume.content temporary (calls writer).bytes := by
  obtain ⟨fresh, entries, inodes, -⟩ := create_absent absent
  have begun : Run (diskStep calls) (Alone writer) disk (disk.enter writer .creating) :=
    alone_step 0 none .refl (by simp [Disk.writeStep, named, phase])
  let empty := ((disk.enter writer .creating).on (disk.volume.create temporary).1).enter writer
    (.writing (disk.volume.create temporary).2 0)
  have writing : empty.writers writer = .writing (disk.volume.create temporary).2 0 := by
    simp [empty]
  have created : Run (diskStep calls) (Alone writer) disk empty :=
    alone_step 0 none begun (by
      simp only [Disk.writeStep, named, enter_writers, if_true]
      rfl)
  have content : empty.volume.content = Files.put disk.volume.content temporary [] :=
    funext (content_create absent)
  cases bytes : (calls writer).bytes with
  | nil =>
      refine ⟨empty.enter writer .replacing, alone_step 0 none created ?_, by simp, content⟩
      simp [Disk.writeStep, named, writing, bytes]
  | cons first rest =>
      let full := (empty.on (empty.volume.append (disk.volume.create temporary).2
        (first :: rest))).enter writer (.writing (disk.volume.create temporary).2
          (0 + (first :: rest).length))
      have wrote : Run (diskStep calls) (Alone writer) disk full :=
        alone_step (first :: rest).length none created (by
          simp [Disk.writeStep, named, writing, bytes, full])
      refine ⟨full.enter writer .replacing, alone_step 0 none wrote ?_, by simp, ?_⟩
      · simp [Disk.writeStep, named, full, bytes]
      · have here : empty.volume.entries temporary = some (disk.volume.create temporary).2 := by
          rw [fresh]
          exact (congrFun entries temporary).trans (Function.update_self ..)
        have sole : ∀ other, empty.volume.entries other = some (disk.volume.create temporary).2 →
            other = temporary := by
          intro other found
          rw [fresh] at found
          have listed := (congrFun entries other).symm.trans found
          rw [Function.update_apply] at listed
          by_contra different
          rw [if_neg different] at listed
          exact absurd (disk.volume.bounded other _ listed) (lt_irrefl _)
        have blank : empty.volume.inodes (disk.volume.create temporary).2 = [] := by
          rw [fresh]
          exact (congrFun inodes _).trans (Function.update_self ..)
        funext other
        refine (content_append here sole (first :: rest) other).trans ?_
        rw [blank, content]
        unfold Files.put
        split_ifs <;> rfl

omit [DecidableEq Reader] in
/-- A rename of a staged temporary, first or again. -/
theorem alone_renamed {current : Disk Writer Reader} {otherwise : Error → WritePhase}
    {written : Files} (stored : current.volume.content = written)
    (whole : (written temporary).isSome = true) (target : List String) :
    (current.renamed writer temporary target otherwise).writers writer = .returned (.ok ()) ∧
      (current.renamed writer temporary target otherwise).volume.content =
        written.rename temporary target := by
  have linked : (current.volume.entries temporary).isSome = true := by
    rw [← stored, Volume.content, Option.isSome_map] at whole
    exact whole
  obtain ⟨inode, found⟩ := Option.isSome_iff_exists.mp linked
  unfold Disk.renamed
  rw [found]
  refine ⟨by simp, ?_⟩
  rw [← stored]
  exact funext (content_rename current.volume temporary target)

/-- The fallback without a target removes the temporary, if it can. -/
theorem alone_cleans {current : Disk Writer Reader} {error : Error} (cleanup : Option Error)
    (named : (calls writer).temporary = some temporary)
    (run : Run (diskStep calls) (Alone writer) disk current)
    (phase : current.writers writer = .checking error)
    (missing : current.volume.content (calls writer).target = none) :
    ∃ final : Disk Writer Reader, Run (diskStep calls) (Alone writer) disk final ∧
      final.writers writer = .returned (.error error) ∧
      final.volume.content = if cleanup.isSome then current.volume.content
        else Files.delete current.volume.content temporary := by
  have gone : (current.volume.entries (calls writer).target).isSome = false := by
    rw [Volume.content, Option.map_eq_none_iff] at missing
    rw [missing]
    rfl
  have cleaning : Run (diskStep calls) (Alone writer) disk
      (current.enter writer (.cleaning error)) := by
    refine alone_step 0 none run ?_
    simp [Disk.writeStep, named, phase, gone]
  cases cleanup with
  | some other =>
      refine ⟨(current.enter writer (.cleaning error)).enter writer (.returned (.error error)),
        alone_step 0 (some other) cleaning ?_, by simp, rfl⟩
      simp [Disk.writeStep, named]
  | none =>
      refine ⟨((current.enter writer (.cleaning error)).on
        (current.volume.unlink temporary)).enter writer (.returned (.error error)),
          alone_step 0 none cleaning ?_, by simp, ?_⟩
      · simp only [Disk.writeStep, named, enter_writers, if_true]
        rfl
      · exact funext (content_unlink current.volume temporary)

theorem alone_removing {current : Disk Writer Reader} {error : Error}
    (named : (calls writer).temporary = some temporary)
    (run : Run (diskStep calls) (Alone writer) disk current)
    (phase : current.writers writer = .checking error)
    (present : (current.volume.content (calls writer).target).isSome = true) :
    Run (diskStep calls) (Alone writer) disk (current.enter writer .removing) := by
  rw [Volume.content, Option.isSome_map] at present
  refine alone_step 0 none run ?_
  simp [Disk.writeStep, named, phase, present]

/-- The fallback with a target removes it and renames again. -/
theorem alone_removes {current : Disk Writer Reader} {error : Error} (again : Option Error)
    (named : (calls writer).temporary = some temporary)
    (run : Run (diskStep calls) (Alone writer) disk current)
    (phase : current.writers writer = .checking error)
    (present : (current.volume.content (calls writer).target).isSome = true)
    (staged : (current.volume.content temporary).isSome = true)
    (apart : (calls writer).target ≠ temporary) :
    ∃ final : Disk Writer Reader, Run (diskStep calls) (Alone writer) disk final ∧
      final.writers writer = .returned (again.elim (.ok ()) .error) ∧
      final.volume.content = if again.isSome
        then Files.delete current.volume.content (calls writer).target
        else Files.rename (Files.delete current.volume.content (calls writer).target) temporary
          (calls writer).target := by
  have removing := alone_removing named run phase present
  rw [Volume.content, Option.isSome_map] at present
  obtain ⟨inode, found⟩ := Option.isSome_iff_exists.mp present
  let removed := (((current.enter writer .removing).on
    (current.volume.unlink (calls writer).target)).note (.removed writer)).enter writer
      .replacingAgain
  have gone : Run (diskStep calls) (Alone writer) disk removed := by
    refine alone_step 0 none removing ?_
    simp only [Disk.writeStep, named, enter_writers, if_true]
    change (match current.volume.entries (calls writer).target with
      | none => _
      | some _ => _) = _
    rw [found]
    rfl
  have content : removed.volume.content =
      Files.delete current.volume.content (calls writer).target :=
    funext (content_unlink current.volume (calls writer).target)
  have waits : removed.writers writer = .replacingAgain := by
    simp [removed]
  cases again with
  | some other =>
      refine ⟨removed.enter writer (.returned (.error other)),
        alone_step 0 (some other) gone ?_, by simp, content⟩
      simp [Disk.writeStep, named, waits]
  | none =>
      have still : (Files.delete current.volume.content (calls writer).target temporary).isSome =
          true :=
        (congrArg Option.isSome (delete_other (Ne.symm apart))).trans staged
      refine ⟨removed.renamed writer temporary (calls writer).target fun error =>
        .returned (.error error), alone_step 0 none gone ?_, alone_renamed content still _⟩
      simp [Disk.writeStep, named, waits]

/-- The rest of a call whose temporary is staged. -/
def replaceStaged (faults : WriteFaults) (temporary target : List String) (written : Files) :
    Except Error Unit × Files :=
  match faults.rename with
  | none => (.ok (), written.rename temporary target)
  | some error =>
      if (written target).isSome then
        match faults.remove with
        | some error => (.error error, written)
        | none => (faults.renameAgain.elim (.ok ()) .error, if faults.renameAgain.isSome
            then written.delete target else (written.delete target).rename temporary target)
      else (.error error, if faults.cleanup.isSome then written else written.delete temporary)

theorem atomicWrite_staged {faults : WriteFaults} {random : Nat} {path : String} {bytes : Bytes}
    {files : Files} {parent : List String} (given : pathParent (components path) = some parent)
    (created : faults.createDir = none) (wrote : faults.write = none) :
    ((atomicWrite faults random path bytes files).result,
        (atomicWrite faults random path bytes files).final) =
      replaceStaged faults (parent ++ [temporaryName (components path) random]) (components path)
        (files.put (parent ++ [temporaryName (components path) random]) bytes) := by
  simp only [atomicWrite, replaceStaged, given, created, wrote]
  cases faults.rename with
  | none => rfl
  | some error =>
      dsimp only
      split
      · cases faults.remove with
        | some error => rfl
        | none => cases faults.renameAgain <;> rfl
      · cases faults.cleanup <;> rfl

theorem alone_replaces {current : Disk Writer Reader} {written : Files} (faults : WriteFaults)
    (named : (calls writer).temporary = some temporary)
    (run : Run (diskStep calls) (Alone writer) disk current)
    (phase : current.writers writer = .replacing) (stored : current.volume.content = written)
    (staged : (written temporary).isSome = true) (apart : (calls writer).target ≠ temporary) :
    ∃ final : Disk Writer Reader, Run (diskStep calls) (Alone writer) disk final ∧
      final.writers writer =
        .returned (replaceStaged faults temporary (calls writer).target written).1 ∧
      final.volume.content =
        (replaceStaged faults temporary (calls writer).target written).2 := by
  subst stored
  unfold replaceStaged
  cases replaced : faults.rename with
  | none =>
      refine ⟨current.renamed writer temporary (calls writer).target .checking,
        alone_step 0 none run ?_, alone_renamed rfl staged (calls writer).target⟩
      simp only [Disk.writeStep, named, phase]
  | some error =>
      have checking : Run (diskStep calls) (Alone writer) disk
          (current.enter writer (.checking error)) :=
        alone_step 0 (some error) run (by simp only [Disk.writeStep, named, phase])
      have checks : (current.enter writer (.checking error)).writers writer = .checking error := by
        simp
      cases present : (current.volume.content (calls writer).target).isSome with
      | false =>
          have missing : current.volume.content (calls writer).target = none := by
            simpa using present
          have cleaned := alone_cleans faults.cleanup named checking checks missing
          exact cleaned
      | true =>
          cases removes : faults.remove with
          | some other =>
              have removing := alone_removing named checking checks present
              refine ⟨((current.enter writer (.checking error)).enter writer .removing).enter writer
                (.returned (.error other)), alone_step 0 (some other) removing ?_, by simp, rfl⟩
              simp only [Disk.writeStep, named, enter_writers, if_true]
          | none =>
              have removed := alone_removes faults.renameAgain named checking checks present staged
                apart
              exact removed

/-- A call that nothing runs beside is `atomicWrite`, whichever of its steps fail. -/
theorem alone_refines (faults : WriteFaults) (phase : disk.writers writer = .start)
    (absent : ∀ temporary, (calls writer).temporary = some temporary →
      disk.volume.entries temporary = none) :
    ∃ final : Disk Writer Reader, Run (diskStep calls) (Alone writer) disk final ∧
      final.writers writer = .returned (atomicWrite faults (calls writer).random
        (calls writer).path (calls writer).bytes disk.volume.content).result ∧
      final.volume.content = (atomicWrite faults (calls writer).random (calls writer).path
        (calls writer).bytes disk.volume.content).final := by
  cases parent : pathParent (components (calls writer).path) with
  | none =>
      have unnamed : (calls writer).temporary = none := by
        simp only [WriteCall.temporary, WriteCall.target, parent, Option.map_none]
      refine ⟨disk.enter writer (.returned (.error
        (.msg s!"{(calls writer).path} has no parent directory"))), alone_step 0 none .refl ?_,
        ?_, ?_⟩
      · simp only [Disk.writeStep, unnamed, phase]
      · simp only [enter_writers, if_true, atomicWrite, parent]
      · simp only [atomicWrite, parent]
        rfl
  | some directory =>
      have named : (calls writer).temporary =
          some (directory ++ [temporaryName (components (calls writer).path)
            (calls writer).random]) := by
        simp only [WriteCall.temporary, WriteCall.target, parent, Option.map_some]
      cases created : faults.createDir with
      | some error =>
          refine ⟨disk.enter writer (.returned (.error error)), alone_step 0 (some error) .refl ?_,
            ?_, ?_⟩
          · simp only [Disk.writeStep, named, phase]
          · simp only [enter_writers, if_true, atomicWrite, parent, created]
          · simp only [atomicWrite, parent, created]
            rfl
      | none =>
          cases wrote : faults.write with
          | some error =>
              have creating : Run (diskStep calls) (Alone writer) disk
                  (disk.enter writer .creating) :=
                alone_step 0 none .refl (by simp only [Disk.writeStep, named, phase])
              refine ⟨(disk.enter writer .creating).enter writer (.returned (.error error)),
                alone_step 0 (some error) creating ?_, ?_, ?_⟩
              · simp only [Disk.writeStep, named, enter_writers, if_true]
              · simp only [enter_writers, if_true, atomicWrite, parent, created, wrote]
              · simp only [atomicWrite, parent, created, wrote]
                rfl
          | none =>
              obtain ⟨staged, run, ready, content⟩ := alone_staged named phase (absent _ named)
              obtain ⟨result, left⟩ := Prod.ext_iff.mp (@atomicWrite_staged faults
                (calls writer).random (calls writer).path (calls writer).bytes disk.volume.content
                  directory parent created wrote)
              obtain ⟨final, ended, returned, held⟩ := alone_replaces faults named run ready content
                (congrArg Option.isSome put_self) (temporary_ne _ parent)
              exact ⟨final, ended, returned.trans (congrArg WritePhase.returned result.symm),
                held.trans left.symm⟩

end Alone

section Runs

variable {Writer Reader : Type} [DecidableEq Writer] [DecidableEq Reader]
  {calls : Writer → WriteCall} {volume : Volume} {disk : Disk Writer Reader}

omit [DecidableEq Writer] [DecidableEq Reader] in
theorem start_sound (names : NewNames calls volume) :
    (Disk.start volume : Disk Writer Reader).Sound calls volume where
  absent writer temporary named _ := names.absent writer temporary named
  begun _ _ _ _ _ writing := by cases writing
  whole _ _ _ _ staged _ := absurd staged id
  isolated _ _ _ _ _ _ writing := by cases writing
  unread _ _ _ _ _ _ _ _ _ writing := by cases writing
  named _ _ _ writing := by cases writing
  held _ _ := rfl
  opened _ _ _ _ _ reading := by cases reading
  answered _ _ _ _ returned := by cases returned
  done writer := by
    constructor
    · intro member
      cases member
    · intro returned
      cases returned

/-- Every file is replaced as in one step, whatever runs beside: it holds what the renames and
removals so far make of it, a reader gets what it held at the moment it was opened, and a call
has renamed exactly when it has returned without an error. -/
theorem writes_linearize (names : NewNames calls volume)
    (run : DiskRun calls (Disk.start volume) disk) :
    (∀ path, Lasting calls path →
      disk.volume.content path = replay calls path (volume.content path) disk.log) ∧
    (∀ reader path moment result, Lasting calls path →
      disk.readers reader = .returned path moment result → moment ≤ disk.log.length ∧
        result = replay calls path (volume.content path) (disk.log.take moment)) ∧
    ∀ writer, .renamed writer ∈ disk.log ↔ disk.writers writer = .returned (.ok ()) := by
  have sound : disk.Sound calls volume :=
    run.invariant (fun disk => disk.Sound calls volume) (start_sound names)
      fun _ _ _ given _ taken => given.move names (diskStep_move taken)
  refine ⟨sound.held, ?_, sound.done⟩
  intro reader path moment result lasting returned
  obtain ⟨early, read⟩ := sound.answered reader path moment result returned
  exact ⟨early, read lasting⟩

/-- Two processes write one file: the first one in two parts, and another reads in between. -/
def twoCalls (second : Bool) : WriteCall where
  path := "/s"
  random := if second then 2 else 1
  bytes := if second then [7] else [5, 6]

def noFiles : Volume where
  inodes := fun _ => []
  nextInode := 0
  entries := fun _ => none
  bounded := by simp

theorem twoCalls_names : NewNames twoCalls noFiles where
  distinct := by decide
  targets := by
    intro second third
    revert second third
    decide
  absent _ _ _ := rfl

def twoActions : List (DiskAction Bool Unit) :=
  [.write false 0 none, .write true 0 none, .write false 0 none, .write true 0 none,
    .write false 1 none, .write true 9 none, .write true 0 none, .write true 0 none,
    .openFile () (components "/s") none, .write false 9 none, .write false 0 none,
    .write false 0 none, .read () 9 none, .read () 9 none]

def twoFinal : Option (Disk Bool Unit) :=
  execute (diskStep twoCalls) (fun _ _ => True) (Disk.start noFiles) twoActions

theorem twoFinal_reached : ∃ disk, twoFinal = some disk ∧
    disk.readers () = .returned (components "/s") 1 (some [7]) := by
  exact ⟨_, rfl, rfl⟩

/-- The reader has opened the second call's file, which the first one replaces meanwhile. -/
theorem writes_linearize_twice :
    ∃ disk : Disk Bool Unit, disk.readers () = .returned (components "/s") 1 (some [7]) ∧
      disk.volume.content (components "/s") = replay twoCalls (components "/s") none disk.log ∧
      some [7] = replay twoCalls (components "/s") none (disk.log.take 1) := by
  obtain ⟨disk, final, read⟩ := twoFinal_reached
  have both := writes_linearize twoCalls_names (run_of_execute final)
  have lasting := twoCalls_names.targets false
  exact ⟨disk, read, both.1 _ lasting, (both.2.1 () _ 1 _ lasting read).2⟩

end Runs

end AgentTranscript
