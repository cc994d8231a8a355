import AgentTranscript.Library.HashMap
import AgentTranscript.Local.Exact

/-!
Processes that share one state file. Each keeps a copy from the time it loaded
and writes the whole file from it.
-/

set_option autoImplicit false

namespace AgentTranscript

open Loop Transition

section Stamp

/-- What of a state only loads and sweeps change. -/
def LocalStore.stamp (store : LocalStore) : Nat × Option DateTime :=
  (store.state.schema, store.state.lastSweep)

@[simp] theorem retain_stamp (store : LocalStore) (keep noted : String → SourceRecord → Bool) :
    (store.retain keep noted).stamp = store.stamp := by
  unfold LocalStore.retain
  dsimp only
  split <;> rfl

variable (machine : Machine)

@[simp] theorem resolveDirectory_stamp (store : LocalStore) (dir : String) :
    (store.resolveDirectory machine dir).2.stamp = store.stamp := by
  unfold LocalStore.resolveDirectory
  dsimp only
  split <;> rfl

@[simp] theorem resolveRepo_stamp (store : LocalStore) (cwd : Option String) :
    (store.resolveRepo machine cwd).2.stamp = store.stamp := by
  unfold LocalStore.resolveRepo
  split
  · rfl
  · dsimp only
    split
    · split <;> exact resolveDirectory_stamp machine store _
    · rfl

variable [HarnessNames]

variable [DocumentCodec]

@[simp] theorem reload_stamp (store : LocalStore) (harness : HarnessId)
    (source fingerprint : String) (updatedAt : Option DateTime) :
    (store.reload machine harness source fingerprint updatedAt).stamp = store.stamp := by
  unfold LocalStore.reload
  cases machine.load harness source with
  | error failure => cases failure <;> rfl
  | ok transcript =>
      have kept := resolveRepo_stamp machine store (Info.of transcript.metadata).cwd
      simp only [LocalStore.stamp, LocalStore.insert, noteReady_state] at kept ⊢
      split <;> simpa only [LocalStore.failSource, LocalStore.fail, reportRepo_state] using kept

@[simp] theorem reconsider_stamp (store : LocalStore) (harness : HarnessId)
    (source fingerprint : String) (updatedAt : Option DateTime) :
    (store.reconsider machine harness source fingerprint updatedAt).stamp = store.stamp := by
  unfold LocalStore.reconsider
  split
  · rfl
  · exact reload_stamp machine store harness source fingerprint updatedAt

@[simp] theorem scanFound_stamp (store : LocalStore) (site : Site) (found : List Found) :
    (store.scanFound machine site found).stamp = store.stamp := by
  unfold LocalStore.scanFound LocalStore.dropUnseen
  rw [retain_stamp]
  induction found generalizing store with
  | nil => rfl
  | cons entry rest ih => rw [List.foldl_cons, ih, reconsider_stamp]

@[simp] theorem scanSite_stamp (store : LocalStore) (site : Site) :
    (store.scanSite machine site).stamp = store.stamp := by
  unfold LocalStore.scanSite
  cases site.kind with
  | files _ _ => exact scanFound_stamp machine store site _
  | sessionDirs _ => exact scanFound_stamp machine store site _
  | grokBotDirs => exact scanFound_stamp machine store site _
  | db =>
      cases scanned : store.scanDb machine site with
      | error error => rfl
      | ok updated =>
          dsimp only
          unfold LocalStore.scanDb at scanned
          dsimp only at scanned
          split at scanned
          · cases scanned
            rfl
          · obtain ⟨found, _, made⟩ := bind_ok scanned
            cases made
            exact scanFound_stamp machine store site _

@[simp] theorem resolvePendingKey_stamp (store : LocalStore) (key : String) :
    (store.resolvePendingKey machine key).stamp = store.stamp := by
  unfold LocalStore.resolvePendingKey
  cases store.state.sources.get? key with
  | none => rfl
  | some record =>
      have kept := resolveRepo_stamp machine store record.info.cwd
      dsimp only
      split
      · rw [reload_stamp, kept]
      · exact kept

/-- A diff keeps the schema and the last sweep. -/
@[simp] theorem diff_stamp (store : LocalStore) : (store.diff machine).stamp = store.stamp := by
  have scans : ∀ (present : List Site) (start : LocalStore),
      (present.foldl (fun store site => store.scanSite machine site) start).stamp = start.stamp := by
    intro present
    induction present with
    | nil => intro start; rfl
    | cons site rest ih =>
        intro start
        rw [List.foldl_cons, ih, scanSite_stamp]
  have resolves : ∀ (keys : List String) (start : LocalStore),
      (keys.foldl (fun store key => store.resolvePendingKey machine key) start).stamp =
        start.stamp := by
    intro keys
    induction keys with
    | nil => intro start; rfl
    | cons key rest ih =>
        intro start
        rw [List.foldl_cons, ih, resolvePendingKey_stamp]
  unfold LocalStore.diff LocalStore.resolvePending LocalStore.dropUnowned
  rw [resolves, retain_stamp, scans]
  rfl

end Stamp

/-- `SWEEP_INTERVAL`, one hour. -/
def sweepInterval : DateTime := 60 * 60 * 1000000000

/-- A last sweep in the future counts as due. -/
def sweepDue (now : DateTime) : Option DateTime → Bool
  | some last => now < last || sweepInterval ≤ now - last
  | none => true

/-- Where a process is. A server serves as long as it lives, an ingest run goes
through the other phases in order. `swept` is a sweep that is not saved yet. -/
inductive SharerPhase where
  | serving
  | loaded
  | scanned
  | deciding
  | sweeping
  | swept
  | finishing
  deriving DecidableEq, Repr

/-- `seen` is history: how many saved sweeps the copy goes back to. -/
structure Sharer where
  store : LocalStore
  phase : SharerPhase
  seen : Nat

/-- `saved`, `completed` and `highest` are history: how many sweeps were saved,
when sweeps were completed, newest first, and the latest sweep the file has held. -/
structure Shared where
  file : Option State
  now : DateTime
  sharers : HashMap Nat Sharer
  saved : Nat
  completed : List DateTime
  highest : WithBot DateTime

inductive SharedAction where
  | serve (pid : Nat)
  | ingest (pid : Nat)
  | scan (pid : Nat) (machine : Machine)
  | resolve (pid : Nat) (machine : Machine) (dir : String)
  | save (pid : Nat) (diskError : Option Error)
  | decide (pid : Nat)
  | complete (pid : Nat)
  | fail (pid : Nat)
  | exit (pid : Nat)
  | tick (elapsed : Nat)

/-- The last sweep that loading the file finds. -/
def sweptAt (file : Option State) : WithBot DateTime :=
  (LocalStore.load file).state.lastSweep

def latest (completed : List DateTime) : WithBot DateTime :=
  completed.head?

section Machine

variable [HarnessNames] [DocumentCodec]

def Shared.initial (file : Option State) (now : DateTime) : Shared where
  file := file
  now := now
  sharers := ∅
  saved := 0
  completed := (LocalStore.load file).state.lastSweep.toList
  highest := sweptAt file

def Shared.place (shared : Shared) (pid : Nat) (sharer : Sharer) : Shared :=
  { shared with sharers := shared.sharers.insert pid sharer }

def Shared.remove (shared : Shared) (pid : Nat) : Shared :=
  { shared with sharers := shared.sharers.erase pid }

def Shared.load (shared : Shared) (phase : SharerPhase) : Sharer :=
  ⟨LocalStore.load shared.file, phase, shared.saved⟩

def Shared.write (shared : Shared) (file : Option State) : Shared :=
  { shared with
    file := file
    highest := max shared.highest (sweptAt file) }

def SharerPhase.saves : SharerPhase → Bool
  | .serving | .scanned | .swept | .finishing => true
  | .loaded | .deciding | .sweeping => false

/-- An ingest run ends when its first save fails. -/
def Shared.save (shared : Shared) (pid : Nat) (sharer : Sharer) (diskError : Option Error) :
    Shared :=
  match sharer.store.saveIfDirty diskError shared.file with
  | (.error _, store, file) =>
      let written := shared.write file
      match sharer.phase with
      | .scanned => written.remove pid
      | phase => written.place pid ⟨store, phase, sharer.seen⟩
  | (.ok _, store, file) =>
      let written := shared.write file
      match sharer.phase with
      | .scanned => written.place pid ⟨store, .deciding, sharer.seen⟩
      | .swept =>
          { written with saved := shared.saved + 1 }.place pid
            ⟨store, .finishing, shared.saved + 1⟩
      | phase => written.place pid ⟨store, phase, sharer.seen⟩

def sharedStep (shared : Shared) : SharedAction → Option Shared
  | .serve pid =>
      match shared.sharers.lookup pid with
      | none => some (shared.place pid (shared.load .serving))
      | some _ => none
  | .ingest pid =>
      match shared.sharers.lookup pid with
      | none => some (shared.place pid (shared.load .loaded))
      | some _ => none
  | .scan pid machine =>
      match shared.sharers.lookup pid with
      | some ⟨store, .serving, seen⟩ =>
          some (shared.place pid ⟨store.diff machine, .serving, seen⟩)
      | some ⟨store, .loaded, seen⟩ =>
          some (shared.place pid ⟨store.diff machine, .scanned, seen⟩)
      | _ => none
  | .resolve pid machine dir =>
      match shared.sharers.lookup pid with
      | some ⟨store, .serving, seen⟩ =>
          some (shared.place pid ⟨(store.resolveDirectory machine dir).2, .serving, seen⟩)
      | _ => none
  | .save pid diskError =>
      match shared.sharers.lookup pid with
      | some sharer => if sharer.phase.saves then some (shared.save pid sharer diskError) else none
      | none => none
  | .decide pid =>
      match shared.sharers.lookup pid with
      | some ⟨store, .deciding, seen⟩ =>
          if sweepDue shared.now store.state.lastSweep then
            some (shared.place pid ⟨store, .sweeping, seen⟩)
          else some (shared.place pid ⟨store, .finishing, seen⟩)
      | _ => none
  | .complete pid =>
      match shared.sharers.lookup pid with
      | some ⟨store, .sweeping, _⟩ =>
          some { shared.place pid ⟨store.noteSwept shared.now, .swept, shared.saved⟩ with
            completed := shared.now :: shared.completed }
      | _ => none
  | .fail pid =>
      match shared.sharers.lookup pid with
      | some ⟨store, .sweeping, seen⟩ => some (shared.place pid ⟨store, .finishing, seen⟩)
      | _ => none
  | .exit pid =>
      match shared.sharers.lookup pid with
      | some _ => some (shared.remove pid)
      | none => none
  | .tick elapsed => some { shared with now := shared.now + elapsed }

/-- Sweeping, or about to save a sweep. -/
def SharerPhase.active : SharerPhase → Bool
  | .sweeping | .swept => true
  | _ => false

/-- No process saves or sweeps by a copy that goes back behind a sweep saved by
another, sweeps do not overlap, and none is completed without being saved. -/
def InTurn (shared : Shared) : SharedAction → Prop
  | .save pid diskError => ∀ sharer ∈ shared.sharers.lookup pid, sharer.store.dirty = true →
      diskError = none → sharer.seen = shared.saved
  | .decide pid => ∀ sharer ∈ shared.sharers.lookup pid,
      sweepDue shared.now sharer.store.state.lastSweep = true → sharer.seen = shared.saved ∧
        ∀ other ∈ shared.sharers.entries, other.2.phase.active = false
  | .exit pid => ∀ sharer ∈ shared.sharers.lookup pid, sharer.phase ≠ .swept
  | _ => True

instance (shared : Shared) : ∀ action, Decidable (InTurn shared action)
  | .save pid diskError => inferInstanceAs (Decidable (∀ sharer ∈ shared.sharers.lookup pid,
      sharer.store.dirty = true → diskError = none → sharer.seen = shared.saved))
  | .decide pid => inferInstanceAs (Decidable (∀ sharer ∈ shared.sharers.lookup pid,
      sweepDue shared.now sharer.store.state.lastSweep = true → sharer.seen = shared.saved ∧
        ∀ other ∈ shared.sharers.entries, other.2.phase.active = false))
  | .exit pid => inferInstanceAs (Decidable (∀ sharer ∈ shared.sharers.lookup pid,
      sharer.phase ≠ .swept))
  | .serve _ | .ingest _ | .scan _ _ | .resolve _ _ _ | .complete _ | .fail _ | .tick _ =>
      inferInstanceAs (Decidable True)

end Machine

section Kept

/-- What is known of one process. -/
structure Fits (shared : Shared) (sharer : Sharer) : Prop where
  seen : sharer.seen ≤ shared.saved
  schema : sharer.store.state.schema = stateSchema
  copy : sharer.seen = shared.saved → sharer.phase ≠ .swept →
    sharer.store.state.lastSweep = sweptAt shared.file
  swept : sharer.phase = .swept → sharer.store.dirty = true ∧ sharer.seen = shared.saved ∧
    sharer.store.state.lastSweep = latest shared.completed
  due : sharer.phase = .sweeping → ∀ last ∈ shared.completed.head?,
    last + sweepInterval ≤ shared.now

structure SweepsKept (shared : Shared) : Prop where
  fits : ∀ pid sharer, shared.sharers.lookup pid = some sharer → Fits shared sharer
  sole : ∀ left right first second, shared.sharers.lookup left = some first →
    shared.sharers.lookup right = some second → first.phase.active = true →
      second.phase.active = true → left = right
  highest : shared.highest = sweptAt shared.file
  filed : sweptAt shared.file ≤ latest shared.completed
  past : latest shared.completed ≤ shared.now
  spaced : shared.completed.IsChain fun newer older => older + sweepInterval ≤ newer
  settled : (∀ pid sharer, shared.sharers.lookup pid = some sharer → sharer.phase ≠ .swept) →
    sweptAt shared.file = latest shared.completed

theorem ne_swept_of_inactive {phase : SharerPhase} (inactive : phase.active = false) :
    phase ≠ .swept := by
  intro swept
  rw [swept] at inactive
  cases inactive

theorem ne_sweeping_of_inactive {phase : SharerPhase} (inactive : phase.active = false) :
    phase ≠ .sweeping := by
  intro sweeping
  rw [sweeping] at inactive
  cases inactive

variable {shared : Shared} {pid other : Nat} {sharer : Sharer}

@[simp] theorem place_lookup : (shared.place pid sharer).sharers.lookup other =
    if other = pid then some sharer else shared.sharers.lookup other :=
  HashMap.lookup_insert_eq shared.sharers pid other sharer

@[simp] theorem remove_lookup : (shared.remove pid).sharers.lookup other =
    if other = pid then none else shared.sharers.lookup other :=
  HashMap.lookup_erase_eq shared.sharers pid other

theorem load_schema (file : Option State) : (LocalStore.load file).state.schema = stateSchema := by
  unfold LocalStore.load
  cases file with
  | none => rfl
  | some state =>
      dsimp only
      split_ifs with current
      · exact current
      · rfl

theorem sweptAt_saved {state : State} (current : state.schema = stateSchema) :
    sweptAt (some state) = state.lastSweep := by
  simp only [sweptAt, LocalStore.load, if_pos current]
  rfl

theorem Fits.load (phase : SharerPhase) (quiet : phase.active = false) :
    Fits shared (shared.load phase) where
  seen := Nat.le_refl _
  schema := load_schema shared.file
  copy _ _ := rfl
  swept same := absurd same (ne_swept_of_inactive quiet)
  due same := absurd same (ne_sweeping_of_inactive quiet)

theorem SweepsKept.initial {file : Option State} {now : DateTime} (past : sweptAt file ≤ now) :
    SweepsKept (.initial file now) := by
  have same : sweptAt file = latest (Shared.initial file now).completed := by
    unfold latest sweptAt Shared.initial
    cases (LocalStore.load file).state.lastSweep <;> rfl
  refine ⟨?_, ?_, rfl, same.le, same ▸ past, ?_, fun _ => same⟩
  · intro pid sharer found
    cases found
  · intro left right first second found
    cases found
  · unfold Shared.initial
    cases (LocalStore.load file).state.lastSweep with
    | none => exact .nil
    | some last => exact .singleton last

/-- While a process sweeps, or has a sweep to save, no other does. -/
theorem SweepsKept.apart (kept : SweepsKept shared)
    (found : shared.sharers.lookup pid = some sharer) (active : sharer.phase.active = true)
    {other : Nat} {old : Sharer} (different : other ≠ pid)
    (lookup : shared.sharers.lookup other = some old) : old.phase.active = false := by
  apply Bool.eq_false_iff.mpr
  intro otherActive
  exact different (kept.sole other pid old sharer lookup found otherActive active)

theorem SweepsKept.sole_place (kept : SweepsKept shared)
    (alone : sharer.phase.active = true → ∀ other old, other ≠ pid →
      shared.sharers.lookup other = some old → old.phase.active = false) :
    ∀ left right first second, (shared.place pid sharer).sharers.lookup left = some first →
      (shared.place pid sharer).sharers.lookup right = some second →
        first.phase.active = true → second.phase.active = true → left = right := by
  intro left right first second leftFound rightFound leftActive rightActive
  rw [place_lookup] at leftFound rightFound
  split_ifs at leftFound rightFound with atLeft atRight atRight
  · exact atLeft.trans atRight.symm
  · cases leftFound
    rw [alone leftActive right second atRight rightFound] at rightActive
    cases rightActive
  · cases rightFound
    rw [alone rightActive left first atLeft leftFound] at leftActive
    cases leftActive
  · exact kept.sole left right first second leftFound rightFound leftActive rightActive

/-- A process moves on by itself. -/
theorem SweepsKept.place (kept : SweepsKept shared) (fits : Fits shared sharer)
    (alone : sharer.phase.active = true → ∀ other old, other ≠ pid →
      shared.sharers.lookup other = some old → old.phase.active = false)
    (calm : ∀ old, shared.sharers.lookup pid = some old → old.phase = .swept →
      sharer.phase = .swept) : SweepsKept (shared.place pid sharer) := by
  refine ⟨?_, kept.sole_place alone, kept.highest, kept.filed, kept.past, kept.spaced, ?_⟩
  · intro other found lookup
    have known : Fits shared found := by
      rw [place_lookup] at lookup
      split_ifs at lookup
      · cases lookup
        exact fits
      · exact kept.fits other found lookup
    exact ⟨known.seen, known.schema, known.copy, known.swept, known.due⟩
  · intro none
    apply kept.settled
    intro other old found swept
    by_cases same : other = pid
    · subst same
      exact none other sharer (by simp) (calm old found swept)
    · exact none other old (by simp [same, found]) swept

/-- A process starts by loading the file. -/
theorem SweepsKept.start (kept : SweepsKept shared) (free : shared.sharers.lookup pid = none)
    {phase : SharerPhase} (inactive : phase.active = false) :
    SweepsKept (shared.place pid (shared.load phase)) := by
  apply kept.place (.load phase inactive)
  · intro active
    exact absurd (inactive.symm.trans active) (by decide)
  · intro old lookup
    rw [free] at lookup
    cases lookup

theorem SweepsKept.remove (kept : SweepsKept shared)
    (calm : ∀ old, shared.sharers.lookup pid = some old → old.phase ≠ .swept) :
    SweepsKept (shared.remove pid) := by
  have before : ∀ {other found}, (shared.remove pid).sharers.lookup other = some found →
      shared.sharers.lookup other = some found := by
    intro other found lookup
    rw [remove_lookup] at lookup
    split_ifs at lookup
    exact lookup
  refine ⟨?_, ?_, kept.highest, kept.filed, kept.past, kept.spaced, ?_⟩
  · intro other found lookup
    have known := kept.fits other found (before lookup)
    exact ⟨known.seen, known.schema, known.copy, known.swept, known.due⟩
  · intro left right first second leftFound rightFound
    exact kept.sole left right first second (before leftFound) (before rightFound)
  · intro none
    apply kept.settled
    intro other old found swept
    by_cases same : other = pid
    · subst same
      exact calm old found swept
    · exact none other old (by simp [same, found]) swept

/-- A file with the same last sweep is as good. -/
theorem SweepsKept.refile (kept : SweepsKept shared) {file : Option State}
    (same : sweptAt file = sweptAt shared.file) : SweepsKept (shared.write file) := by
  refine ⟨?_, kept.sole, ?_, ?_, kept.past, kept.spaced, ?_⟩
  · intro other found lookup
    have known := kept.fits other found lookup
    refine ⟨known.seen, known.schema, ?_, known.swept, known.due⟩
    intro current quiet
    exact (known.copy current quiet).trans same.symm
  · exact (max_eq_right (kept.highest.trans same.symm).le)
  · exact same.le.trans kept.filed
  · intro none
    exact same.trans (kept.settled none)

theorem SweepsKept.move (kept : SweepsKept shared)
    (found : shared.sharers.lookup pid = some sharer) (quiet : sharer.phase ≠ .swept)
    {store : LocalStore} (stamp : store.stamp = sharer.store.stamp) {phase : SharerPhase}
    (inactive : phase.active = false) :
    SweepsKept (shared.place pid ⟨store, phase, sharer.seen⟩) := by
  obtain ⟨schema, lastSweep⟩ := Prod.mk.inj stamp
  have known := kept.fits pid sharer found
  apply kept.place
  · refine ⟨known.seen, schema.trans known.schema, ?_, ?_, ?_⟩
    · intro current _
      rw [lastSweep]
      exact known.copy current quiet
    · intro swept
      exact absurd swept (ne_swept_of_inactive inactive)
    · intro sweeping
      exact absurd sweeping (ne_sweeping_of_inactive inactive)
  · intro active
    exact absurd (inactive.symm.trans active) (by decide)
  · intro old lookup swept
    cases found.symm.trans lookup
    exact absurd swept quiet

theorem SweepsKept.stay (kept : SweepsKept shared)
    (found : shared.sharers.lookup pid = some sharer) : SweepsKept (shared.place pid sharer) := by
  apply kept.place (kept.fits pid sharer found)
  · intro active other old different lookup
    exact kept.apart found active different lookup
  · intro old lookup swept
    cases found.symm.trans lookup
    exact swept

theorem saveIfDirty_cases (store : LocalStore) (diskError : Option Error) (file : Option State) :
    (∃ outcome, store.saveIfDirty diskError file = (outcome, store, file) ∧
      (outcome.isOk = true → store.dirty = false)) ∨
    (store.dirty = true ∧ diskError = none ∧ store.saveIfDirty diskError file =
      (.ok (), { store with dirty := false }, some store.state)) := by
  unfold LocalStore.saveIfDirty
  cases changed : store.dirty with
  | false => exact .inl ⟨.ok (), rfl, fun _ => rfl⟩
  | true =>
      cases diskError with
      | some error => exact .inl ⟨.error error, rfl, fun wrote => by cases wrote⟩
      | none => exact .inr ⟨rfl, rfl, rfl⟩

/-- Saving a completed sweep makes every other copy one of before. -/
theorem SweepsKept.save_swept (kept : SweepsKept shared)
    (found : shared.sharers.lookup pid = some sharer) (swept : sharer.phase = .swept) :
    SweepsKept ({ shared.write (some sharer.store.state) with saved := shared.saved + 1 }.place pid
      ⟨{ sharer.store with dirty := false }, .finishing, shared.saved + 1⟩) := by
  have known := kept.fits pid sharer found
  have held : sweptAt (some sharer.store.state) = latest shared.completed :=
    (sweptAt_saved known.schema).trans (known.swept swept).2.2
  have active : sharer.phase.active = true := by rw [swept]; rfl
  refine ⟨?_, ?_, ?_, held.le, kept.past, kept.spaced, fun _ => held⟩
  · intro other old lookup
    rw [place_lookup] at lookup
    split_ifs at lookup with same
    · cases lookup
      refine ⟨Nat.le_refl _, known.schema, ?_, ?_, ?_⟩
      · intro _ _
        exact (sweptAt_saved known.schema).symm
      · intro again
        cases again
      · intro sweeping
        cases sweeping
    · have before := kept.fits other old lookup
      have inactive := kept.apart found active same lookup
      refine ⟨Nat.le_succ_of_le before.seen, before.schema, ?_, ?_, before.due⟩
      · intro current
        exact absurd current (Nat.lt_succ_of_le before.seen).ne
      · intro alsoSwept
        exact absurd alsoSwept (ne_swept_of_inactive inactive)
  · apply kept.sole_place
    intro finishes
    cases finishes
  · exact max_eq_right (kept.highest.le.trans (kept.filed.trans held.symm.le))

theorem SweepsKept.save (kept : SweepsKept shared) {diskError : Option Error}
    (found : shared.sharers.lookup pid = some sharer) (saves : sharer.phase.saves = true)
    (inTurn : InTurn shared (.save pid diskError)) :
    SweepsKept (shared.save pid sharer diskError) := by
  have known := kept.fits pid sharer found
  rcases saveIfDirty_cases sharer.store diskError shared.file with unchanged | written
  · obtain ⟨outcome, shape, clean⟩ := unchanged
    have same : shared.write shared.file = shared := by
      simp [Shared.write, kept.highest.symm]
    have stays : sharer.phase ≠ .swept → ∀ {phase : SharerPhase}, phase.active = false →
        SweepsKept (shared.place pid ⟨sharer.store, phase, sharer.seen⟩) :=
      fun quiet _ inactive => kept.move found quiet rfl inactive
    unfold Shared.save
    rw [shape]
    cases outcome with
    | error error =>
        simp only [same]
        cases ofPhase : sharer.phase with
        | serving => exact stays (by simp [ofPhase]) rfl
        | finishing => exact stays (by simp [ofPhase]) rfl
        | scanned =>
            apply kept.remove
            intro old lookup swept
            cases found.symm.trans lookup
            rw [ofPhase] at swept
            cases swept
        | swept =>
            have stay := kept.stay found
            obtain ⟨store, phase, seen⟩ := sharer
            subst ofPhase
            exact stay
        | loaded | deciding | sweeping => rw [ofPhase] at saves; cases saves
    | ok _ =>
        simp only [same]
        have saved := clean rfl
        cases ofPhase : sharer.phase with
        | serving => exact stays (by simp [ofPhase]) rfl
        | finishing => exact stays (by simp [ofPhase]) rfl
        | scanned => exact stays (by simp [ofPhase]) rfl
        | swept =>
            rw [(known.swept ofPhase).1] at saved
            cases saved
        | loaded | deciding | sweeping => rw [ofPhase] at saves; cases saves
  · obtain ⟨dirty, rfl, shape⟩ := written
    have current := inTurn sharer found dirty rfl
    unfold Shared.save
    simp only [shape]
    by_cases swept : sharer.phase = .swept
    · simp only [swept]
      exact kept.save_swept found swept
    · have same : sweptAt (some sharer.store.state) = sweptAt shared.file :=
        (sweptAt_saved known.schema).trans (known.copy current swept)
      have moves : ∀ {phase : SharerPhase}, phase.active = false → SweepsKept
          ((shared.write (some sharer.store.state)).place pid
            ⟨{ sharer.store with dirty := false }, phase, sharer.seen⟩) := by
        intro phase inactive
        refine (kept.refile same).move found swept ?_ inactive
        rfl
      cases ofPhase : sharer.phase with
      | serving => exact moves rfl
      | scanned => exact moves rfl
      | finishing => exact moves rfl
      | swept => exact absurd ofPhase swept
      | loaded | deciding | sweeping => rw [ofPhase] at saves; cases saves

theorem SweepsKept.complete (kept : SweepsKept shared) {pid seen : Nat} {store : LocalStore}
    (found : shared.sharers.lookup pid = some ⟨store, .sweeping, seen⟩) :
    SweepsKept { shared.place pid ⟨store.noteSwept shared.now, .swept, shared.saved⟩ with
      completed := shared.now :: shared.completed } := by
  have known := kept.fits pid _ found
  refine ⟨?_, ?_, kept.highest, kept.filed.trans kept.past, le_refl _, ?_, ?_⟩
  · intro other old lookup
    rw [place_lookup] at lookup
    split_ifs at lookup with same
    · cases lookup
      refine ⟨Nat.le_refl _, known.schema, fun _ quiet => absurd rfl quiet,
        fun _ => ⟨rfl, rfl, rfl⟩, ?_⟩
      intro sweeping
      cases sweeping
    · have before := kept.fits other old lookup
      have inactive := kept.apart found rfl same lookup
      refine ⟨before.seen, before.schema, before.copy, ?_, ?_⟩
      · intro swept
        exact absurd swept (ne_swept_of_inactive inactive)
      · intro sweeping
        exact absurd sweeping (ne_sweeping_of_inactive inactive)
  · apply kept.sole_place
    intro _ other old different lookup
    exact kept.apart found rfl different lookup
  · have due := known.due rfl
    cases older : shared.completed with
    | nil => exact .singleton _
    | cons last rest =>
        have spaced := kept.spaced
        rw [older] at spaced due
        exact .cons_cons (due last rfl) spaced
  · intro none
    exact absurd rfl (none pid ⟨store.noteSwept shared.now, .swept, shared.saved⟩
      (AList.lookup_insert shared.sharers))

theorem SweepsKept.tick (kept : SweepsKept shared) (elapsed : Nat) :
    SweepsKept { shared with now := shared.now + elapsed } := by
  have later : shared.now ≤ shared.now + (elapsed : Int) := Int.le_add_of_nonneg_right (by simp)
  refine ⟨?_, kept.sole, kept.highest, kept.filed, ?_, kept.spaced, kept.settled⟩
  · intro pid sharer lookup
    have known := kept.fits pid sharer lookup
    refine ⟨known.seen, known.schema, known.copy, known.swept, ?_⟩
    intro sweeping last member
    exact (known.due sweeping last member).trans later
  · exact kept.past.trans (WithBot.coe_le_coe.mpr later)

/-- A sweep that is due by a copy that is current is due by the clock. -/
theorem SweepsKept.begin (kept : SweepsKept shared) {pid seen : Nat} {store : LocalStore}
    (found : shared.sharers.lookup pid = some ⟨store, .deciding, seen⟩)
    (isDue : sweepDue shared.now store.state.lastSweep = true) (current : seen = shared.saved)
    (alone : ∀ other ∈ shared.sharers.entries, other.2.phase.active = false) :
    SweepsKept (shared.place pid ⟨store, .sweeping, seen⟩) := by
  have known := kept.fits pid _ found
  have inactive : ∀ other old, shared.sharers.lookup other = some old →
      old.phase.active = false :=
    fun other old lookup => alone ⟨other, old⟩ (HashMap.mem_entries_iff.mpr lookup)
  have held : (store.state.lastSweep : WithBot DateTime) = latest shared.completed := by
    refine (known.copy current (by simp)).trans (kept.settled ?_)
    intro other old lookup
    exact ne_swept_of_inactive (inactive other old lookup)
  apply kept.place
  · refine ⟨known.seen, known.schema, fun same _ => known.copy same (by simp), ?_, ?_⟩
    · intro swept
      cases swept
    · intro _ last member
      have lastIs : store.state.lastSweep = some last := held.trans member
      have past : last ≤ shared.now := by
        have before := kept.past
        rw [latest, member] at before
        exact WithBot.coe_le_coe.mp before
      rw [lastIs] at isDue
      simp only [sweepDue, Bool.or_eq_true, decide_eq_true_eq] at isDue
      rcases isDue with future | elapsed
      · exact absurd past future.not_ge
      · exact le_sub_iff_add_le'.mp elapsed
  · intro _ other old _ lookup
    exact inactive other old lookup
  · intro old lookup swept
    cases found.symm.trans lookup
    cases swept

end Kept

section Steps

variable [HarnessNames] [DocumentCodec] {shared next final : Shared} {action : SharedAction}

theorem SweepsKept.step (kept : SweepsKept shared) (inTurn : InTurn shared action)
    (stepped : sharedStep shared action = some next) : SweepsKept next := by
  cases action with
  | serve pid =>
      simp only [sharedStep] at stepped
      split at stepped
      · rename_i free
        cases stepped
        exact kept.start free rfl
      · cases stepped
  | ingest pid =>
      simp only [sharedStep] at stepped
      split at stepped
      · rename_i free
        cases stepped
        exact kept.start free rfl
      · cases stepped
  | scan pid machine =>
      simp only [sharedStep] at stepped
      split at stepped
      · rename_i store seen found
        cases stepped
        exact kept.move found (by simp) (diff_stamp machine store) rfl
      · rename_i store seen found
        cases stepped
        exact kept.move found (by simp) (diff_stamp machine store) rfl
      · cases stepped
  | resolve pid machine dir =>
      simp only [sharedStep] at stepped
      split at stepped
      · rename_i store seen found
        cases stepped
        exact kept.move found (by simp) (resolveDirectory_stamp machine store dir) rfl
      · cases stepped
  | save pid diskError =>
      simp only [sharedStep] at stepped
      split at stepped
      · rename_i sharer found
        split_ifs at stepped with saves
        cases stepped
        exact kept.save found saves inTurn
      · cases stepped
  | decide pid =>
      simp only [sharedStep] at stepped
      split at stepped
      · rename_i store seen found
        split_ifs at stepped with isDue
        · cases stepped
          obtain ⟨current, alone⟩ := inTurn _ found isDue
          exact kept.begin found isDue current alone
        · cases stepped
          exact kept.move found (by simp) rfl rfl
      · cases stepped
  | complete pid =>
      simp only [sharedStep] at stepped
      split at stepped
      · rename_i store seen found
        cases stepped
        exact kept.complete found
      · cases stepped
  | fail pid =>
      simp only [sharedStep] at stepped
      split at stepped
      · rename_i store seen found
        cases stepped
        exact kept.move found (by simp) rfl rfl
      · cases stepped
  | exit pid =>
      simp only [sharedStep] at stepped
      split at stepped
      · rename_i sharer found
        cases stepped
        apply kept.remove
        intro old lookup
        exact inTurn old lookup
      · cases stepped
  | tick elapsed =>
      cases stepped
      exact kept.tick elapsed

/-- The last sweep in the file never moves backwards, no completed sweep is
forgotten once it is saved, and completed sweeps are an interval apart. -/
theorem sharing_keeps_sweeps {file : Option State} {now : DateTime} (past : sweptAt file ≤ now)
    (run : Run sharedStep InTurn (.initial file now) final) :
    sweptAt final.file = final.highest ∧
    ((∀ pid sharer, final.sharers.lookup pid = some sharer → sharer.phase ≠ .swept) →
      sweptAt final.file = latest final.completed) ∧
    final.completed.IsChain fun newer older => older + sweepInterval ≤ newer := by
  have kept : SweepsKept final :=
    run.invariant SweepsKept (.initial past) fun shared action next held inTurn stepped =>
      held.step inTurn stepped
  exact ⟨kept.highest.symm, kept.settled, kept.spaced⟩

end Steps

section Example

attribute [local instance] HarnessNames.snakeCase DocumentCodec.padded

/-- An ingest run of one process, up to its sweep. -/
def sweepOnce (pid : Nat) : List SharedAction :=
  [.ingest pid, .scan pid installed, .save pid none, .decide pid, .complete pid]

theorem sweepOnce_finishes : (execute sharedStep InTurn (.initial none 0)
    (sweepOnce 1 ++ [.save 1 none, .exit 1, .serve 0, .scan 0 installed, .save 0 none])).map
      (fun shared => (sweptAt shared.file, shared.completed)) =
        some (((0 : DateTime) : WithBot DateTime), [0]) := by
  decide +kernel

/-- A server that starts after the sweep keeps it. -/
theorem sharing_keeps_sweeps_once : ∃ final : Shared, final.completed = [0] ∧
    sweptAt final.file = final.highest ∧
    ((∀ pid sharer, final.sharers.lookup pid = some sharer → sharer.phase ≠ .swept) →
      sweptAt final.file = latest final.completed) ∧
    final.completed.IsChain fun newer older => older + sweepInterval ≤ newer := by
  obtain ⟨final, finished, shape⟩ := Option.map_eq_some_iff.mp sweepOnce_finishes
  have past : sweptAt none ≤ ((0 : DateTime) : WithBot DateTime) := bot_le
  exact ⟨final, congrArg Prod.snd shape, sharing_keeps_sweeps past (run_of_execute finished)⟩

theorem staleServer_finishes : (execute sharedStep (fun _ _ => True) (.initial none 0)
    (.serve 0 :: sweepOnce 1 ++ [.save 1 none, .exit 1, .scan 0 installed, .save 0 none] ++
      sweepOnce 2)).map (fun shared => (sweptAt shared.file, shared.highest, shared.completed)) =
        some (⊥, ((0 : DateTime) : WithBot DateTime), [0, 0]) := by
  decide +kernel

/-- A server that started before the sweep saves its copy over it, and the next
ingest run sweeps again. -/
theorem sharing_forgets_sweep : ∃ final : Shared,
    Run sharedStep (fun _ _ => True) (.initial none 0) final ∧
    sweptAt final.file < final.highest ∧
    ¬ final.completed.IsChain fun newer older => older + sweepInterval ≤ newer := by
  obtain ⟨final, finished, shape⟩ := Option.map_eq_some_iff.mp staleServer_finishes
  simp only [Prod.mk.injEq] at shape
  obtain ⟨forgotten, highest, completed⟩ := shape
  refine ⟨final, run_of_execute finished, ?_, ?_⟩
  · rw [forgotten, highest]
    exact WithBot.bot_lt_coe 0
  · rw [completed]
    decide

end Example

end AgentTranscript
