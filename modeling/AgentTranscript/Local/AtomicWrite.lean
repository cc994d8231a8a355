import AgentTranscript.Search.SnapshotProperties
import AgentTranscript.Text

/-!
Writing a file by renaming a temporary sibling over it, with the fallback for a rename that
fails: every choice of the steps that fail, and every state on the way.
-/

set_option autoImplicit false

namespace AgentTranscript

section Definitions

/-- The regular files, each under the components of its path. -/
def Files := List String → Option Bytes

def Files.put (files : Files) (path : List String) (bytes : Bytes) : Files :=
  fun other => if other = path then some bytes else files other

def Files.delete (files : Files) (path : List String) : Files :=
  fun other => if other = path then none else files other

def Files.rename (files : Files) (source target : List String) : Files :=
  fun other => if other = target then files source
    else if other = source then none else files other

/-- `Path::parent`: the root and the empty path have none. -/
def pathParent (path : List String) : Option (List String) :=
  match path.getLast? with
  | none => none
  | some last => if last = "/" then none else some path.dropLast

/-- `Path::file_name`: the last component, if it is a name. -/
def pathFileName (path : List String) : Option String :=
  path.getLast?.filter fun last => last ≠ "/" ∧ last ≠ "." ∧ last ≠ ".."

/-- The error of each step that fails; a step that fails has no effect. -/
structure WriteFaults where
  createDir : Option Error
  write : Option Error
  rename : Option Error
  remove : Option Error
  renameAgain : Option Error
  cleanup : Option Error
  deriving DecidableEq, Repr

/-- What a call returns, the states it passes through and the one it leaves. -/
structure WriteRun where
  result : Except Error Unit
  passed : List Files
  final : Files

def temporaryName (path : List String) (random : Nat) : String :=
  "." ++ (pathFileName path).getD "file" ++ "." ++ toString random ++ ".tmp"

def atomicWrite (faults : WriteFaults) (random : Nat) (path : String) (bytes : Bytes)
    (files : Files) : WriteRun :=
  let target := components path
  match pathParent target with
  | none => ⟨.error (.msg s!"{path} has no parent directory"), [], files⟩
  | some parent =>
      let temporary := parent ++ [temporaryName target random]
      match faults.createDir, faults.write with
      | some error, _ => ⟨.error error, [], files⟩
      | none, some error => ⟨.error error, [files], files⟩
      | none, none =>
          let written := files.put temporary bytes
          match faults.rename with
          | none => ⟨.ok (), [files, written], written.rename temporary target⟩
          | some error =>
              if (written target).isSome then
                match faults.remove with
                | some error => ⟨.error error, [files], written⟩
                | none =>
                    let removed := written.delete target
                    match faults.renameAgain with
                    | some error => ⟨.error error, [files, written], removed⟩
                    | none =>
                        ⟨.ok (), [files, written, removed], removed.rename temporary target⟩
              else
                match faults.cleanup with
                | some _ => ⟨.error error, [files], written⟩
                | none => ⟨.error error, [files, written], written.delete temporary⟩

/-- A call that returns has written the target, one that fails has left it, and a target that
existed holds its old or its new content at every point. -/
structure Atomic (target : List String) (bytes : Bytes) (files : Files) (run : WriteRun) :
    Prop where
  written : run.result = .ok () → run.final target = some bytes
  unchanged : ∀ error, run.result = .error error → run.final target = files target
  present : ∀ old, files target = some old → ∀ state ∈ run.passed ++ [run.final],
    state target = some old ∨ state target = some bytes

/-- The first rename fails and the target is removed before the second one. -/
def RemovesTarget (faults : WriteFaults) (target : List String) (files : Files) : Prop :=
  (pathParent target).isSome ∧ faults.createDir = none ∧ faults.write = none ∧
    faults.rename.isSome ∧ (files target).isSome ∧ faults.remove = none

end Definitions

section Paths

variable {path parent : List String}

theorem pathParent_concat (given : pathParent path = some parent) :
    ∃ last, path = parent ++ [last] ∧ last ≠ "/" ∧ path.getLast? = some last := by
  unfold pathParent at given
  cases final : path.getLast? with
  | none => simp [final] at given
  | some last =>
      simp only [final] at given
      split_ifs at given with root
      cases given
      exact ⟨last, (List.dropLast_append_getLast? last final).symm, root, rfl⟩

/-- The temporary name is longer than the name it is made from. -/
theorem temporaryName_length (path : List String) (random : Nat) :
    ((pathFileName path).getD "file").length + 6 ≤ (temporaryName path random).length := by
  have dot : ".".length = 1 := rfl
  have suffix : ".tmp".length = 4 := rfl
  simp only [temporaryName, String.length_append, dot, suffix]
  omega

/-- The temporary sibling is another file than the target. -/
theorem temporary_ne (random : Nat) (given : pathParent path = some parent) :
    path ≠ parent ++ [temporaryName path random] := by
  obtain ⟨last, shape, root, final⟩ := pathParent_concat given
  intro same
  have name : last = temporaryName path random :=
    List.singleton_inj.mp (List.append_cancel_left (shape.symm.trans same))
  have long := temporaryName_length path random
  rw [← name] at long
  by_cases special : last = "." ∨ last = ".."
  · have short : last.length ≤ 2 := by
      rcases special with rfl | rfl
      · exact Nat.le_succ 1
      · exact le_refl 2
    omega
  · have named : pathFileName path = some last := by
      simp only [pathFileName, final, Option.filter_some]
      simp [root, not_or.mp special]
    rw [named, Option.getD_some] at long
    omega

end Paths

section Run

variable {faults : WriteFaults} {random : Nat} {path : String} {bytes : Bytes} {files : Files}
  {target temporary : List String}

@[simp] theorem put_self : (files.put temporary bytes) temporary = some bytes := if_pos rfl

theorem put_other (files : Files) (bytes : Bytes) (apart : target ≠ temporary) :
    (files.put temporary bytes) target = files target := if_neg apart

@[simp] theorem delete_self : (files.delete target) target = none := if_pos rfl

theorem delete_other (apart : target ≠ temporary) :
    (files.delete temporary) target = files target := if_neg apart

@[simp] theorem rename_target : (files.rename temporary target) target = files temporary :=
  if_pos rfl

/-- Without the fallback's removal, the target keeps its content until the rename gives it the
new one. -/
theorem atomicWrite_keeps (random : Nat) (bytes : Bytes)
    (kept : ¬ RemovesTarget faults (components path) files) :
    ((∃ error, (atomicWrite faults random path bytes files).result = .error error) ∧
      ∀ state ∈ (atomicWrite faults random path bytes files).passed ++
        [(atomicWrite faults random path bytes files).final],
          state (components path) = files (components path)) ∨
    ((atomicWrite faults random path bytes files).result = .ok () ∧
      (atomicWrite faults random path bytes files).final (components path) = some bytes ∧
      ∀ state ∈ (atomicWrite faults random path bytes files).passed,
        state (components path) = files (components path)) := by
  cases parent : pathParent (components path) with
  | none => exact .inl (by simp [atomicWrite, parent])
  | some directory =>
      have apart := temporary_ne random parent
      have written := put_other files bytes apart
      cases created : faults.createDir with
      | some error => exact .inl (by simp [atomicWrite, parent, created])
      | none =>
          cases wrote : faults.write with
          | some error => exact .inl (by simp [atomicWrite, parent, created, wrote])
          | none =>
              cases renamed : faults.rename with
              | none => exact .inr (by simp [atomicWrite, parent, created, wrote, renamed, written])
              | some error =>
                  left
                  cases held : files (components path) with
                  | none =>
                      rw [held] at written
                      cases cleaned : faults.cleanup with
                      | some other => simp [atomicWrite, parent, created, wrote, renamed, written,
                          held, cleaned]
                      | none => simp [atomicWrite, parent, created, wrote, renamed, written,
                          held, cleaned, delete_other apart]
                  | some old =>
                      rw [held] at written
                      cases removed : faults.remove with
                      | some other => simp [atomicWrite, parent, created, wrote, renamed, written,
                          held, removed]
                      | none =>
                          exact absurd ⟨by simp [parent], created, wrote, by simp [renamed],
                            by simp [held], removed⟩ kept

/-- The fallback passes a state without the target. -/
theorem atomicWrite_removes (random : Nat) (bytes : Bytes)
    (removes : RemovesTarget faults (components path) files) :
    ∃ state ∈ (atomicWrite faults random path bytes files).passed ++
      [(atomicWrite faults random path bytes files).final], state (components path) = none := by
  obtain ⟨proper, created, wrote, failed, existed, removed⟩ := removes
  obtain ⟨directory, parent⟩ := Option.isSome_iff_exists.mp proper
  obtain ⟨error, renamed⟩ := Option.isSome_iff_exists.mp failed
  have written := put_other files bytes (temporary_ne random parent)
  refine ⟨(files.put (directory ++ [temporaryName (components path) random]) bytes).delete
    (components path), ?_, delete_self⟩
  cases again : faults.renameAgain with
  | none => simp [atomicWrite, parent, created, wrote, renamed, written, existed, removed, again]
  | some other => simp [atomicWrite, parent, created, wrote, renamed, written, existed, removed, again]

/-- A write is atomic unless the first rename fails over an existing target, which is then
removed. -/
theorem atomicWrite_atomic_iff (faults : WriteFaults) (random : Nat) (path : String)
    (bytes : Bytes) (files : Files) :
    Atomic (components path) bytes files (atomicWrite faults random path bytes files) ↔
      ¬ RemovesTarget faults (components path) files := by
  constructor
  · intro atomic removes
    obtain ⟨old, held⟩ := Option.isSome_iff_exists.mp removes.2.2.2.2.1
    obtain ⟨state, member, lost⟩ := atomicWrite_removes random bytes removes
    have present := atomic.present old held state member
    simp [lost] at present
  · intro kept
    rcases atomicWrite_keeps random bytes kept with stopped | replaced
    · obtain ⟨failed, left⟩ := stopped
      obtain ⟨error, failed⟩ := failed
      refine ⟨?_, ?_, ?_⟩
      · intro returned
        rw [failed] at returned
        cases returned
      · exact fun _ _ => left _ (by simp)
      · exact fun old held state member => .inl ((left state member).trans held)
    · obtain ⟨returned, written, left⟩ := replaced
      refine ⟨fun _ => written, ?_, ?_⟩
      · intro error failed
        rw [returned] at failed
        cases failed
      · intro old held state member
        rcases List.mem_append.mp member with passed | last
        · exact .inl ((left state passed).trans held)
        · rw [List.mem_singleton.mp last]
          exact .inr written

theorem rename_other {other : List String} (source : other ≠ temporary)
    (destination : other ≠ target) : (files.rename temporary target) other = files other :=
  (if_neg destination).trans (if_neg source)

/-- No other file changes, except the temporary one. -/
theorem atomicWrite_frame {other : List String} (notTarget : other ≠ components path)
    (notTemporary : ∀ parent, pathParent (components path) = some parent →
      other ≠ parent ++ [temporaryName (components path) random]) :
    ∀ state ∈ (atomicWrite faults random path bytes files).passed ++
      [(atomicWrite faults random path bytes files).final], state other = files other := by
  cases parent : pathParent (components path) with
  | none => simp [atomicWrite, parent]
  | some directory =>
      have apart := notTemporary directory parent
      simp only [atomicWrite, parent]
      split
      · simp
      · simp
      · split
        · simp [put_other _ _ apart, rename_other apart notTarget]
        · split
          · split
            · simp [put_other _ _ apart]
            · split <;>
                simp [put_other _ _ apart, delete_other notTarget, rename_other apart notTarget]
          · split <;> simp [put_other _ _ apart, delete_other apart]

def twoFailures : WriteFaults where
  createDir := none
  write := none
  rename := some (.io "Operation not permitted")
  remove := none
  renameAgain := some (.io "Operation not permitted")
  cleanup := none

/-- The old content is gone although the call fails. -/
theorem twoFailures_lose :
    ¬ Atomic ["/", "state.json"] [2]
      (fun path => if path = ["/", "state.json"] then some [1] else none)
      (atomicWrite twoFailures 7 "/state.json" [2]
        fun path => if path = ["/", "state.json"] then some [1] else none) := by
  intro atomic
  have left := atomic.unchanged (.io "Operation not permitted") (by rfl)
  revert left
  decide

end Run

section Snapshot

variable {Extracted : Type} [Txcript Extracted] [SnapshotCodec Extracted Bytes]

/-- `save_local` over the files: a snapshot that is refused touches none. -/
def saveLocalAt (faults : WriteFaults) (random : Nat) (path : String)
    (snapshot : Snapshot Extracted) (files : Files) : WriteRun :=
  match snapshot.validate (some snapshot.repoKey) with
  | .error error => ⟨.error error, [], files⟩
  | .ok _ =>
      match SnapshotCodec.toBytes snapshot with
      | .error error => ⟨.error error, [], files⟩
      | .ok stored => atomicWrite faults random path stored files

/-- Saving replaces the file or leaves it, when no target is removed for the rename. -/
theorem saveLocalAt_refines (faults : WriteFaults) (random : Nat) (path : String)
    (snapshot : Snapshot Extracted) (files : Files)
    (kept : ¬ RemovesTarget faults (components path) files) :
    ∃ diskError, saveLocal diskError snapshot (files (components path)) =
      ((saveLocalAt faults random path snapshot files).result,
        (saveLocalAt faults random path snapshot files).final (components path)) := by
  unfold saveLocal saveLocalAt
  cases snapshot.validate (some snapshot.repoKey) with
  | error error => exact ⟨none, rfl⟩
  | ok _ =>
      cases (SnapshotCodec.toBytes snapshot : Except Error Bytes) with
      | error error => exact ⟨none, rfl⟩
      | ok stored =>
          rcases atomicWrite_keeps random stored kept with stopped | replaced
          · obtain ⟨failed, left⟩ := stopped
            obtain ⟨error, failed⟩ := failed
            exact ⟨some error, Prod.ext failed.symm (left _ (by simp)).symm⟩
          · obtain ⟨returned, written, -⟩ := replaced
            exact ⟨none, Prod.ext returned.symm written.symm⟩

end Snapshot

end AgentTranscript
