import AgentTranscript.Library.Transition
import AgentTranscript.Search.Handover
import AgentTranscript.Sweep.Readers

/-!
The catalog that an MCP server answers from: a slot that outlives the server in
a file, and that a request has probed by ETag once it has expired. Calls to the
store take no time here; the readers beside a sweep let them take any.
-/

set_option autoImplicit false

namespace AgentTranscript

open Loop Transition

/-- `DateTime::<Utc>::MIN_UTC`, the start of the year -262143. -/
def minUtc : DateTime := -8334601228800 * 1000000000

/-- The slot of a server that has no cached catalog. -/
def CatalogSlot.unfetched : CatalogSlot where
  catalog := .empty
  etag := none
  fetchedAt := minUtc

/-- A version of the remote catalog, or its absence, while it was the remote one. -/
structure Reign where
  version : Option ETag
  since : DateTime
  ended : DateTime
  deriving DecidableEq, Repr

/-- The clock, which stands at or after the Unix epoch, and the remote catalog up to now. -/
structure RemoteHistory where
  now : DateTime
  remote : Option ETag
  since : DateTime
  reigns : List Reign
  clock : 0 ≤ now
  began : since ≤ now
  ended : ∀ reign ∈ reigns, reign.ended ≤ now

section History

def RemoteHistory.tick (history : RemoteHistory) (elapsed : Nat) : RemoteHistory :=
  have later : history.now ≤ history.now + (elapsed : DateTime) :=
    le_add_of_nonneg_right (Int.natCast_nonneg elapsed)
  { history with
    now := history.now + (elapsed : DateTime)
    clock := history.clock.trans later
    began := history.began.trans later
    ended := fun reign past => (history.ended reign past).trans later }

def RemoteHistory.replace (history : RemoteHistory) (version : Option ETag) : RemoteHistory where
  now := history.now
  remote := version
  since := history.now
  reigns := ⟨history.remote, history.since, history.now⟩ :: history.reigns
  clock := history.clock
  began := le_refl _
  ended := List.forall_mem_cons.mpr ⟨le_refl _, history.ended⟩

/-- `version` was the remote one at `moment`. -/
def RemoteHistory.WasRemote (history : RemoteHistory) (version : Option ETag)
    (moment : DateTime) : Prop :=
  (version = history.remote ∧ history.since ≤ moment ∧ moment ≤ history.now) ∨
    ∃ reign ∈ history.reigns, version = reign.version ∧ reign.since ≤ moment ∧
      moment ≤ reign.ended

variable {history : RemoteHistory} {version : Option ETag} {moment : DateTime}

theorem wasRemote_now (history : RemoteHistory) : history.WasRemote history.remote history.now :=
  .inl ⟨rfl, history.began, le_refl _⟩

theorem RemoteHistory.WasRemote.le_now (was : history.WasRemote version moment) :
    moment ≤ history.now := by
  rcases was with current | past
  · exact current.2.2
  · obtain ⟨reign, past, _, _, last⟩ := past
    exact last.trans (history.ended reign past)

theorem RemoteHistory.WasRemote.tick (was : history.WasRemote version moment) (elapsed : Nat) :
    (history.tick elapsed).WasRemote version moment := by
  rcases was with current | past
  · obtain ⟨same, since, last⟩ := current
    exact .inl ⟨same, since, last.trans (le_add_of_nonneg_right (Int.natCast_nonneg elapsed))⟩
  · exact .inr past

theorem RemoteHistory.WasRemote.replace (was : history.WasRemote version moment)
    (newer : Option ETag) : (history.replace newer).WasRemote version moment := by
  rcases was with current | past
  · exact .inr ⟨_, List.mem_cons_self, current⟩
  · obtain ⟨reign, past, during⟩ := past
    exact .inr ⟨reign, List.mem_cons_of_mem _ past, during⟩

end History

/-- How a request passed `ensure_catalog`; `unprobed` when its HEAD failed. -/
structure Pass where
  moment : DateTime
  unprobed : Bool
  deriving DecidableEq, Repr

/-- Where a request stands. `waiting` is for `catalog_sync`. -/
inductive CatalogPhase where
  | idle
  | waiting
  | fetching
  | failed
  | passed (pass : Pass)
  | answered (pass : Pass) (moment : DateTime) (slot : CatalogSlot)
  deriving DecidableEq, Repr

structure CatalogServer where
  history : RemoteHistory
  file : Option CatalogSlot
  slot : CatalogSlot
  syncing : Option Nat
  requests : Nat → CatalogPhase

/-- `reached` is whether the store answered, `saved` whether the file was written. -/
inductive CatalogAction where
  | request (id : Nat)
  | probe (id : Nat) (reached saved : Bool)
  | fetch (id : Nat) (reached saved : Bool)
  | answer (id : Nat)
  | replace (version : Option ETag)
  | tick (elapsed : Nat)
  | restart (readable : Bool)

section Machine

variable {Blob : Type}

/-- GET of the catalog. An ETag stands for one body. -/
def getVersion (stored : ETag → Blob) (version : Option ETag) : Option (Fetched Blob) :=
  version.map fun etag => { body := stored etag, etag := some etag }

def serveCatalog (cache : Option CatalogSlot) : CatalogSlot :=
  cache.getD .unfetched

def CatalogServer.serve (history : RemoteHistory) (file : Option CatalogSlot)
    (readable : Bool) : CatalogServer where
  history := history
  file := file
  slot := serveCatalog (if readable then file else none)
  syncing := none
  requests _ := .idle

def CatalogServer.enter (server : CatalogServer) (id : Nat) (phase : CatalogPhase) :
    CatalogServer :=
  { server with requests := Function.update server.requests id phase }

/-- A slot that is known to be current, and its write to the file. -/
def CatalogServer.refresh (server : CatalogServer) (slot : CatalogSlot) (saved : Bool) :
    CatalogServer :=
  { server with
    slot := slot
    file := if saved then some slot else server.file }

variable [HarnessNames] [CatalogCodec Blob]

def catalogStep (stored : ETag → Blob) (server : CatalogServer) :
    CatalogAction → Option CatalogServer
  | .request id =>
      match server.requests id with
      | .idle =>
          if catalogFresh server.history.now server.slot then
            some (server.enter id (.passed ⟨server.history.now, false⟩))
          else some (server.enter id .waiting)
      | _ => none
  | .probe id reached saved =>
      match server.requests id, server.syncing with
      | .waiting, none =>
          if catalogFresh server.history.now server.slot then
            some (server.enter id (.passed ⟨server.history.now, false⟩))
          -- an expired cache is served when the probe fails
          else if !reached then some (server.enter id (.passed ⟨server.history.now, true⟩))
          else if server.history.remote = server.slot.etag then
            some ((server.refresh { server.slot with fetchedAt := server.history.now } saved).enter
              id (.passed ⟨server.history.now, false⟩))
          else some ({ server with syncing := some id }.enter id .fetching)
      | _, _ => none
  | .fetch id reached saved =>
      match server.requests id with
      | .fetching =>
          let released := { server with syncing := none }
          if !reached then some (released.enter id .failed)
          else
            match loadCatalog (getVersion stored server.history.remote) with
            | .ok (catalog, etag) =>
                some ((released.refresh ⟨catalog, etag, server.history.now⟩ saved).enter id
                  (.passed ⟨server.history.now, false⟩))
            | .error _ => some (released.enter id .failed)
      | _ => none
  | .answer id =>
      match server.requests id with
      | .passed pass => some (server.enter id (.answered pass server.history.now server.slot))
      | _ => none
  | .replace version => some { server with history := server.history.replace version }
  | .tick elapsed => some { server with history := server.history.tick elapsed }
  | .restart readable => some (.serve server.history server.file readable)

/-- What a step leaves: a request moved on, the slot made current, or the world outside
the requests changed. -/
inductive CatalogMove (stored : ETag → Blob) (server : CatalogServer) : CatalogServer → Prop where
  | turn {id : Nat} {phase : CatalogPhase} {syncing : Option Nat} :
      (∀ pass, phase = .passed pass → pass.moment = server.history.now ∧ (pass.unprobed = false →
        catalogFresh server.history.now server.slot = true)) →
      (∀ pass moment slot, phase ≠ .answered pass moment slot) →
      CatalogMove stored server ({ server with syncing := syncing }.enter id phase)
  | answer {id : Nat} {pass : Pass} : server.requests id = .passed pass →
      CatalogMove stored server
        (server.enter id (.answered pass server.history.now server.slot))
  | touch {id : Nat} {saved : Bool} : server.history.remote = server.slot.etag →
      CatalogMove stored server
        ((server.refresh { server.slot with fetchedAt := server.history.now } saved).enter id
          (.passed ⟨server.history.now, false⟩))
  | store {id : Nat} {catalog : Catalog} {etag : Option ETag} {saved : Bool} :
      loadCatalog (getVersion stored server.history.remote) = .ok (catalog, etag) →
      CatalogMove stored server
        (({ server with syncing := none }.refresh ⟨catalog, etag, server.history.now⟩ saved).enter
          id (.passed ⟨server.history.now, false⟩))
  | replace {version : Option ETag} :
      CatalogMove stored server { server with history := server.history.replace version }
  | tick {elapsed : Nat} :
      CatalogMove stored server { server with history := server.history.tick elapsed }
  | restart {readable : Bool} :
      CatalogMove stored server (.serve server.history server.file readable)

theorem catalogStep_move {stored : ETag → Blob} {server next : CatalogServer}
    {action : CatalogAction} (stepped : catalogStep stored server action = some next) :
    CatalogMove stored server next := by
  cases action with
  | request id =>
      simp only [catalogStep] at stepped
      split at stepped
      · split at stepped
        · rename_i fresh
          cases stepped
          exact .turn (by simp [fresh]) (by simp)
        · cases stepped
          exact .turn (by simp) (by simp)
      · cases stepped
  | probe id reached saved =>
      simp only [catalogStep] at stepped
      split at stepped
      · split at stepped
        · rename_i fresh
          cases stepped
          exact .turn (by simp [fresh]) (by simp)
        · split at stepped
          · cases stepped
            exact .turn (by simp) (by simp)
          · split at stepped
            · rename_i same
              cases stepped
              exact .touch same
            · cases stepped
              exact .turn (by simp) (by simp)
      · cases stepped
  | fetch id reached saved =>
      simp only [catalogStep] at stepped
      split at stepped
      · split at stepped
        · cases stepped
          exact .turn (by simp) (by simp)
        · split at stepped
          · rename_i loaded
            cases stepped
            exact .store loaded
          · cases stepped
            exact .turn (by simp) (by simp)
      · cases stepped
  | answer id =>
      simp only [catalogStep] at stepped
      split at stepped
      · rename_i passed
        cases stepped
        exact .answer passed
      · cases stepped
  | replace version =>
      cases stepped
      exact .replace
  | tick elapsed =>
      cases stepped
      exact .tick
  | restart readable =>
      cases stepped
      exact .restart

end Machine

section Age

theorem unfetched_le (history : RemoteHistory) :
    CatalogSlot.unfetched.fetchedAt ≤ history.now :=
  le_trans (by decide) history.clock

theorem unfetched_stale (history : RemoteHistory) :
    catalogFresh history.now .unfetched = false := by
  have old : catalogMaxAge ≤ history.now - minUtc :=
    le_trans (by decide : catalogMaxAge ≤ 0 - minUtc) (sub_le_sub_right history.clock _)
  simp only [catalogFresh, CatalogSlot.unfetched, Bool.and_eq_false_imp]
  exact fun _ => decide_eq_false (not_lt.mpr old)

theorem lt_of_catalogFresh {now : DateTime} {slot : CatalogSlot}
    (fresh : catalogFresh now slot = true) :
    now - catalogMaxAge < slot.fetchedAt := by
  simp only [catalogFresh, Bool.and_eq_true, decide_eq_true_eq] at fresh
  exact sub_lt_comm.mp fresh.2

end Age

section Freshness

variable {Blob : Type} [HarnessNames] [CatalogCodec Blob] {stored : ETag → Blob}

theorem loadCatalog_getVersion {version etag : Option ETag} {catalog : Catalog}
    (loaded : loadCatalog (getVersion stored version) = .ok (catalog, etag)) :
    etag = version ∧ Reads (version.map stored) catalog := by
  cases version with
  | none =>
      cases loaded
      exact ⟨rfl, rfl⟩
  | some tag =>
      obtain ⟨read, decoded, checked⟩ := bind_ok loaded
      obtain ⟨_, valid, made⟩ := bind_ok checked
      cases made
      exact ⟨rfl, decoded, valid⟩

/-- `catalog` was the remote one at `moment`. -/
def RemoteHistory.Shows (history : RemoteHistory) (stored : ETag → Blob) (catalog : Catalog)
    (moment : DateTime) : Prop :=
  ∃ version, history.WasRemote version moment ∧ Reads (version.map stored) catalog

/-- The slot holds, under its ETag, what was the remote catalog when it was fetched or
last found unchanged. -/
structure RemoteHistory.Confirms (history : RemoteHistory) (stored : ETag → Blob)
    (slot : CatalogSlot) : Prop where
  remote : history.WasRemote slot.etag slot.fetchedAt
  read : Reads (slot.etag.map stored) slot.catalog

variable {history : RemoteHistory} {slot : CatalogSlot}

theorem RemoteHistory.Confirms.tick (confirmed : history.Confirms stored slot) (elapsed : Nat) :
    (history.tick elapsed).Confirms stored slot :=
  ⟨confirmed.remote.tick elapsed, confirmed.read⟩

theorem RemoteHistory.Confirms.replace (confirmed : history.Confirms stored slot)
    (newer : Option ETag) : (history.replace newer).Confirms stored slot :=
  ⟨confirmed.remote.replace newer, confirmed.read⟩

theorem RemoteHistory.Confirms.shows (confirmed : history.Confirms stored slot) :
    history.Shows stored slot.catalog slot.fetchedAt :=
  ⟨slot.etag, confirmed.remote, confirmed.read⟩

/-- What a request that passed may be answered from: the slot is the unfetched one or
confirmed, and after a check it is confirmed and young. -/
structure RemoteHistory.Backs (history : RemoteHistory) (stored : ETag → Blob) (pass : Pass)
    (slot : CatalogSlot) : Prop where
  source : slot = .unfetched ∨ history.Confirms stored slot
  young : pass.unprobed = false → history.Confirms stored slot ∧
    pass.moment - catalogMaxAge < slot.fetchedAt

theorem RemoteHistory.Backs.mono {later : RemoteHistory} {pass : Pass}
    (backs : history.Backs stored pass slot)
    (keeps : history.Confirms stored slot → later.Confirms stored slot) :
    later.Backs stored pass slot :=
  ⟨backs.source.imp_right keeps, fun checked => (backs.young checked).imp_left keeps⟩

/-- What the slot, the file and the requests have in common in every run. -/
structure CatalogServer.Sound (stored : ETag → Blob) (server : CatalogServer) : Prop where
  file : ∀ slot ∈ server.file, server.history.Confirms stored slot
  slot : server.slot = .unfetched ∨ server.history.Confirms stored server.slot
  passed : ∀ id pass, server.requests id = .passed pass →
    pass.moment ≤ server.history.now ∧ server.history.Backs stored pass server.slot
  answered : ∀ id pass moment slot, server.requests id = .answered pass moment slot →
    pass.moment ≤ moment ∧ slot.fetchedAt ≤ moment ∧ server.history.Backs stored pass slot

namespace CatalogServer.Sound

variable {server : CatalogServer}

theorem serve {file : Option CatalogSlot}
    (cached : ∀ slot ∈ file, history.Confirms stored slot) (readable : Bool) :
    (CatalogServer.serve history file readable).Sound stored where
  file := cached
  slot := by
    cases readable with
    | false => exact .inl rfl
    | true =>
        cases file with
        | none => exact .inl rfl
        | some slot => exact .inr (cached slot rfl)
  passed _ _ phase := nomatch phase
  answered _ _ _ _ phase := nomatch phase

/-- A slot that passes as fresh was confirmed less than the maximal age ago. -/
theorem fresh (sound : server.Sound stored)
    (fresh : catalogFresh server.history.now server.slot = true) :
    server.history.Confirms stored server.slot ∧
      server.history.now - catalogMaxAge < server.slot.fetchedAt := by
  refine ⟨?_, lt_of_catalogFresh fresh⟩
  rcases sound.slot with initial | confirmed
  · rw [initial, unfetched_stale] at fresh
    cases fresh
  · exact confirmed

theorem fetchedAt_le (sound : server.Sound stored) :
    server.slot.fetchedAt ≤ server.history.now := by
  rcases sound.slot with initial | confirmed
  · exact initial ▸ unfetched_le server.history
  · exact confirmed.remote.le_now

theorem turn (sound : server.Sound stored) {id : Nat} {phase : CatalogPhase}
    {syncing : Option Nat}
    (passing : ∀ pass, phase = .passed pass → pass.moment = server.history.now ∧
      (pass.unprobed = false → catalogFresh server.history.now server.slot = true))
    (unanswered : ∀ pass moment slot, phase ≠ .answered pass moment slot) :
    ({ server with syncing := syncing }.enter id phase).Sound stored where
  file := sound.file
  slot := sound.slot
  passed other pass found := by
    by_cases same : other = id
    · subst same
      obtain ⟨moment, checked⟩ := passing pass (by simpa [CatalogServer.enter] using found)
      exact ⟨moment.le, sound.slot, fun probed => moment ▸ sound.fresh (checked probed)⟩
    · exact sound.passed other pass (by simpa [CatalogServer.enter, same] using found)
  answered other pass moment slot found := by
    by_cases same : other = id
    · subst same
      exact absurd (by simpa [CatalogServer.enter] using found) (unanswered pass moment slot)
    · exact sound.answered other pass moment slot
        (by simpa [CatalogServer.enter, same] using found)

theorem answer (sound : server.Sound stored) {id : Nat} {pass : Pass}
    (passed : server.requests id = .passed pass) :
    (server.enter id (.answered pass server.history.now server.slot)).Sound stored where
  file := sound.file
  slot := sound.slot
  passed other waiting found := by
    by_cases same : other = id
    · simp [CatalogServer.enter, same] at found
    · exact sound.passed other waiting (by simpa [CatalogServer.enter, same] using found)
  answered other earlier moment slot found := by
    by_cases same : other = id
    · subst same
      simp only [CatalogServer.enter, Function.update_self] at found
      cases found
      obtain ⟨before, backs⟩ := sound.passed other pass passed
      exact ⟨before, sound.fetchedAt_le, backs⟩
    · exact sound.answered other earlier moment slot
        (by simpa [CatalogServer.enter, same] using found)

/-- A slot confirmed now backs every request that has passed. -/
theorem refresh (sound : server.Sound stored) (syncing : Option Nat) {slot : CatalogSlot}
    {saved : Bool} {id : Nat} (confirmed : server.history.Confirms stored slot)
    (now : slot.fetchedAt = server.history.now) :
    (({ server with syncing := syncing }.refresh slot saved).enter id
      (.passed ⟨server.history.now, false⟩)).Sound stored where
  file kept found := by
    cases saved with
    | false => exact sound.file kept found
    | true =>
        cases found
        exact confirmed
  slot := .inr confirmed
  passed other pass found := by
    have backs : pass.moment ≤ server.history.now →
        pass.moment ≤ server.history.now ∧ server.history.Backs stored pass slot := by
      intro before
      have young : pass.moment - catalogMaxAge < pass.moment := sub_lt_self _ (by decide)
      exact ⟨before, .inr confirmed, fun _ => ⟨confirmed, now ▸ young.trans_le before⟩⟩
    by_cases same : other = id
    · subst same
      simp only [CatalogServer.enter, Function.update_self] at found
      cases found
      exact backs (le_refl _)
    · exact backs (sound.passed other pass
        (by simpa [CatalogServer.enter, CatalogServer.refresh, same] using found)).1
  answered other pass moment slot found := by
    by_cases same : other = id
    · simp [CatalogServer.enter, same] at found
    · exact sound.answered other pass moment slot
        (by simpa [CatalogServer.enter, CatalogServer.refresh, same] using found)

/-- More history confirms what less history does. -/
theorem later (sound : server.Sound stored) {later : RemoteHistory}
    (passes : server.history.now ≤ later.now)
    (keeps : ∀ slot, server.history.Confirms stored slot → later.Confirms stored slot) :
    ({ server with history := later } : CatalogServer).Sound stored where
  file slot found := keeps slot (sound.file slot found)
  slot := sound.slot.imp_right (keeps _)
  passed id pass found := by
    obtain ⟨before, backs⟩ := sound.passed id pass found
    exact ⟨before.trans passes, backs.mono (keeps _)⟩
  answered id pass moment slot found := by
    obtain ⟨before, young, backs⟩ := sound.answered id pass moment slot found
    exact ⟨before, young, backs.mono (keeps _)⟩

theorem step (sound : server.Sound stored) {next : CatalogServer} {action : CatalogAction}
    (stepped : catalogStep stored server action = some next) : next.Sound stored := by
  cases catalogStep_move stepped with
  | turn passing unanswered => exact sound.turn passing unanswered
  | answer passed => exact sound.answer passed
  | @touch id saved same =>
      have read : Reads (server.slot.etag.map stored) server.slot.catalog := by
        rcases sound.slot with initial | confirmed
        · rw [initial]
          rfl
        · exact confirmed.read
      have confirmed : server.history.Confirms stored
          { server.slot with fetchedAt := server.history.now } :=
        ⟨same ▸ wasRemote_now server.history, read⟩
      exact sound.refresh server.syncing confirmed rfl
  | store loaded =>
      obtain ⟨rfl, read⟩ := loadCatalog_getVersion loaded
      exact sound.refresh none ⟨wasRemote_now server.history, read⟩ rfl
  | @replace version =>
      exact sound.later (le_refl _) fun _ confirmed => confirmed.replace version
  | @tick elapsed =>
      exact sound.later (le_add_of_nonneg_right (Int.natCast_nonneg elapsed))
        fun _ confirmed => confirmed.tick elapsed
  | restart => exact .serve sound.file _

end CatalogServer.Sound

/-- In every run, a request that was not turned away by a failed HEAD is answered from what
was the remote catalog less than the maximal age before it passed, or since. After a failed
HEAD that age is unbounded, and what the server never fetched is not covered. -/
theorem catalog_answers {file : Option CatalogSlot} {readable : Bool} {world : CatalogServer}
    (cached : ∀ slot ∈ file, history.Confirms stored slot)
    (run : Run (catalogStep stored) (fun _ _ => True) (.serve history file readable) world)
    {id : Nat} {pass : Pass} {moment : DateTime} {slot : CatalogSlot}
    (reply : world.requests id = .answered pass moment slot) :
    pass.moment ≤ moment ∧
    (pass.unprobed = false → ∃ shown, pass.moment - catalogMaxAge < shown ∧ shown ≤ moment ∧
      world.history.Shows stored slot.catalog shown) ∧
    (pass.unprobed = true → slot ≠ .unfetched →
      slot.fetchedAt ≤ moment ∧ world.history.Shows stored slot.catalog slot.fetchedAt) := by
  have sound : world.Sound stored :=
    run.invariant _ (.serve cached readable) fun _ _ _ holds _ stepped => holds.step stepped
  obtain ⟨before, last, backs⟩ := sound.answered id pass moment slot reply
  refine ⟨before, ?_, ?_⟩
  · intro probed
    obtain ⟨confirmed, young⟩ := backs.young probed
    exact ⟨slot.fetchedAt, young, last, confirmed.shows⟩
  · intro _ fetched
    exact ⟨last, (backs.source.resolve_left fetched).shows⟩

end Freshness

section Example

attribute [local instance] HarnessNames.snakeCase DocumentCodec.padded DocumentReader.plain
  Txcript.plain SnapshotCodec.plain CatalogCodec.plain

def seconds (count : Int) : DateTime := count * 1000000000

def laterCatalog : Catalog :=
  Catalog.piece "repo" .codex "later" (.bare "bbb" 2)

def exampleVersions (etag : ETag) : Catalog :=
  if etag = "first" then archivedCatalog else laterCatalog

def firstHistory : RemoteHistory where
  now := 0
  remote := some "first"
  since := 0
  reigns := []
  clock := le_refl _
  began := le_refl _
  ended := by simp

/-- A request that finds the slot expired and the store in reach. -/
def fetchAnswer (id : Nat) : List CatalogAction :=
  [.request id, .probe id true true, .fetch id true true, .answer id]

/-- A request whose HEAD fails. -/
def unreachableAnswer (id : Nat) : List CatalogAction :=
  [.request id, .probe id false false, .answer id]

/-- What an earlier run left in the cache file. -/
def cachedSlot : CatalogSlot where
  catalog := archivedCatalog
  etag := some "first"
  fetchedAt := 0

theorem cachedSlot_confirmed : firstHistory.Confirms exampleVersions cachedSlot where
  remote := wasRemote_now firstHistory
  read := ⟨rfl, rfl⟩

theorem cachedAnswers_finish :
    (execute (catalogStep exampleVersions) (fun _ _ => True)
      (.serve firstHistory (some cachedSlot) true)
      ([.request 0, .answer 0, .tick 300000000000] ++ unreachableAnswer 1)).map
        (fun world => (world.requests 0, world.requests 1)) =
      some (.answered ⟨0, false⟩ 0 cachedSlot,
        .answered ⟨seconds 300, true⟩ (seconds 300) cachedSlot) := by
  decide +kernel

/-- A server with a cache file: the first request finds it fresh, and the second is
answered from it although it has expired and the HEAD fails. -/
theorem catalog_answers_cached : ∃ world : CatalogServer,
    (∃ shown, (0 : DateTime) - catalogMaxAge < shown ∧ shown ≤ 0 ∧
      world.history.Shows exampleVersions archivedCatalog shown) ∧
    world.history.Shows exampleVersions archivedCatalog 0 := by
  obtain ⟨world, finished, shape⟩ := Option.map_eq_some_iff.mp cachedAnswers_finish
  simp only [Prod.mk.injEq] at shape
  have cached : ∀ slot ∈ some cachedSlot, firstHistory.Confirms exampleVersions slot := by
    intro slot found
    cases found
    exact cachedSlot_confirmed
  have probed := (catalog_answers cached (run_of_execute finished) shape.1).2.1 rfl
  have unprobed := (catalog_answers cached (run_of_execute finished) shape.2).2.2 rfl (by decide)
  exact ⟨world, probed, unprobed.2⟩

/-- A session of the archive in the search index of its repository. -/
def archivedRuntime : Runtime (DocKey × Transcript) :=
  let key := (fromRemote archivedRemote).docKey
  { Runtime.upsert (.empty "repo") key "aaa" (key, exampleTranscript "body") with dirty := false }

theorem outlived_finishes :
    (execute (catalogStep exampleVersions) (fun _ _ => True) (.serve firstHistory none true)
      (unreachableAnswer 0 ++ fetchAnswer 1 ++ [.replace (some "second"), .tick 299000000000,
        .request 2, .tick 10000000000, .answer 2] ++ unreachableAnswer 3)).map
        (fun world => ([0, 2, 3].map world.requests, world.history.remote,
          world.history.reigns)) =
      some ([.answered ⟨0, true⟩ 0 .unfetched,
        .answered ⟨seconds 299, false⟩ (seconds 309) ⟨archivedCatalog, some "first", 0⟩,
        .answered ⟨seconds 309, true⟩ (seconds 309) ⟨archivedCatalog, some "first", 0⟩],
        some "second", [⟨some "first", 0, 0⟩]) := by
  decide +kernel

/-- The first HEAD fails before anything was fetched, and a sync by the empty catalog
drops the archived session from the index and publishes that. A request that passes with
a fresh slot is answered after the slot has expired, and after a second failed HEAD a
request is answered from a catalog that was replaced long before. -/
theorem catalog_outlived : ∃ world : CatalogServer,
    Run (catalogStep exampleVersions) (fun _ _ => True) (.serve firstHistory none true) world ∧
    (∃ pass moment, world.requests 0 = .answered pass moment .unfetched ∧
      ∀ shown, ¬ world.history.Shows exampleVersions Catalog.empty shown) ∧
    (∃ pass moment slot, world.requests 2 = .answered pass moment slot ∧ pass.unprobed = false ∧
      ∀ shown, moment - catalogMaxAge ≤ shown →
        ¬ world.history.Shows exampleVersions slot.catalog shown) ∧
    (∃ pass moment slot, world.requests 3 = .answered pass moment slot ∧ slot ≠ .unfetched ∧
      ∀ shown, moment - catalogMaxAge ≤ shown →
        ¬ world.history.Shows exampleVersions slot.catalog shown) ∧
    merged "repo" none [] Catalog.empty = .ok [] ∧
    (archivedRuntime.removes (wantedOf [fromRemote archivedRemote]) = [] ∧
      archivedRuntime.documents.keys ≠ []) ∧
    ∃ left saved plain, syncRuntime archivedRuntime [] (exampleBodies "body") true none none =
      (left, saved, some plain) ∧ left.documents.keys = [] := by
  obtain ⟨world, finished, shape⟩ := Option.map_eq_some_iff.mp outlived_finishes
  simp only [Prod.mk.injEq, List.map_cons, List.map_nil, List.cons.injEq, and_true] at shape
  obtain ⟨⟨first, late, stale⟩, remote, reigns⟩ := shape
  have versions : ∀ version shown, world.history.WasRemote version shown →
      version = some "second" ∨ version = some "first" ∧ shown ≤ 0 := by
    intro version shown was
    simp only [RemoteHistory.WasRemote, remote, reigns, List.mem_singleton,
      exists_eq_left] at was
    exact was.imp And.left fun past => ⟨past.1, past.2.2⟩
  have empty : ∀ shown, ¬ world.history.Shows exampleVersions Catalog.empty shown := by
    intro shown shows
    obtain ⟨version, was, read⟩ := shows
    rcases versions version shown was with second | first
    · rw [second] at read
      exact absurd (Except.ok.inj read.1) (by decide)
    · rw [first.1] at read
      exact absurd (Except.ok.inj read.1) (by decide)
  have replaced : ∀ shown, seconds 309 - catalogMaxAge ≤ shown →
      ¬ world.history.Shows exampleVersions archivedCatalog shown := by
    intro shown recent shows
    obtain ⟨version, was, read⟩ := shows
    rcases versions version shown was with second | first
    · rw [second] at read
      exact absurd (Except.ok.inj read.1) (by decide)
    · exact absurd (recent.trans first.2) (by decide)
  exact ⟨world, run_of_execute finished, ⟨_, _, first, empty⟩,
    ⟨_, _, _, late, rfl, replaced⟩, ⟨_, _, _, stale, by decide, replaced⟩, rfl,
    ⟨by decide, by decide⟩, _, _, _, rfl, by decide⟩

end Example

end AgentTranscript
