import AgentTranscript.Local.Steady
import AgentTranscript.Merge.RankProperties

/-!
How the records of two scans of one source rank. Its fingerprint covers several
rows; the time that ranks its record is the mtime of the main row alone, or, for a
session directory, the latest mtime of its members.
-/

set_option autoImplicit false

namespace AgentTranscript

section Definitions

/-- The rows of a listing that the fingerprint of a source covers. -/
def coveredRows (kind : Kind) (rows : List TreeRow) (rel : String) : List TreeRow :=
  match kind with
  | .files rule _ => rows.filter fun row =>
      row.rel = rel ||
      rule.dbSidecars && (row.rel = rel ++ "-wal" || row.rel = rel ++ "-shm") ||
      rule.extentDir && startsWith row.rel ((stripSuffix rel ".json").getD rel ++ "/")
  | _ => membersOf rel rows

/-- The rows whose mtimes date its record. -/
def datingRows (kind : Kind) (rows : List TreeRow) (rel : String) : List TreeRow :=
  match kind with
  | .files _ _ => rows.filter fun row => row.rel = rel
  | _ => membersOf rel rows

def latestMtime (rows : List TreeRow) : Nat :=
  (rows.map (·.mtimeNs)).max?.getD 0

/-- When the record of a source is dated by a scan. -/
def datedAt (machine : Machine) (site : Site) (rel : String) : DateTime :=
  mtimeDatetime (latestMtime (datingRows site.kind (walkTree machine site.path) rel))

def Machine.bodyLength [HarnessNames] (machine : Machine) (harness : HarnessId)
    (source : String) : Nat :=
  match machine.load harness source with
  | .ok transcript => transcript.body.length
  | .error _ => 0

end Definitions

section Found

variable [HarnessNames] [DocumentCodec] {machine : Machine} {site : Site} {rel : String}
  {entry : Found}

omit [HarnessNames] [DocumentCodec] in
theorem Walked.filter_rel {rows : List TreeRow} {row : TreeRow} (walked : Walked rows)
    (listed : row ∈ rows) : rows.filter (fun other => other.rel = row.rel) = [row] := by
  obtain ⟨before, after, rfl⟩ := List.append_of_mem listed
  have distinct := walked.distinct
  simp only [List.map_append, List.map_cons, List.nodup_append, List.nodup_cons] at distinct
  obtain ⟨-, ⟨late, -⟩, early⟩ := distinct
  rw [List.filter_append, List.filter_cons_of_pos (by simp), List.filter_eq_nil_iff.mpr,
    List.filter_eq_nil_iff.mpr, List.nil_append]
  · intro other member same
    exact late (of_decide_eq_true same ▸ List.mem_map_of_mem member)
  · intro other member same
    exact early _ (List.mem_map_of_mem member) _ List.mem_cons_self (of_decide_eq_true same)

omit [HarnessNames] in
theorem foundFiles_updatedAt {rule : FileRule} {excludeDirs : List String}
    (kind : site.kind = .files rule excludeDirs) (walked : Walked (machine.listing site.path))
    (proper : ProperRel rel) (member : entry ∈ foundFiles machine site)
    (place : entry.source = joinRel site.path rel) :
    entry.updatedAt = some (datedAt machine site rel) := by
  obtain ⟨row, among, rfl⟩ := List.mem_map.mp member
  have listed := (List.mem_filter.mp among).1
  obtain rfl : row.rel = rel := joinRel_inj (walked.sorted.proper row listed) proper place
  have alone := walked.sorted.filter_rel listed
  unfold datedAt datingRows
  rw [kind]
  simp only [alone]
  rfl

omit [HarnessNames] in
theorem foundDirs_updatedAt (kind : ∀ rule excludeDirs, site.kind ≠ .files rule excludeDirs)
    (walked : Walked (machine.listing site.path)) (proper : ProperRel rel)
    (member : entry ∈ foundDirs machine site) (place : entry.source = joinRel site.path rel) :
    entry.updatedAt = some (datedAt machine site rel) := by
  obtain ⟨dir, among, rfl⟩ := List.mem_map.mp member
  obtain rfl : dir = rel := joinRel_inj (walked.sorted.sessionDirs _ dir among) proper place
  obtain ⟨row, listed, name, split⟩ := mem_sessionDirs among
  have inside : row ∈ membersOf dir (walkTree machine site.path) := by
    refine List.mem_filter.mpr ⟨listed, ?_⟩
    rw [rsplitOnce_eq split]
    exact startsWith_append (dir ++ "/") name
  have members : datingRows site.kind (walkTree machine site.path) dir =
      membersOf dir (walkTree machine site.path) := by
    unfold datingRows
    split
    · rename_i rule excludeDirs shape
      exact absurd shape (kind rule excludeDirs)
    · rfl
  unfold datedAt latestMtime
  rw [members]
  dsimp only
  cases latest : ((membersOf dir (walkTree machine site.path)).map (·.mtimeNs)).max? with
  | none =>
      rw [List.max?_eq_none_iff, List.map_eq_nil_iff] at latest
      rw [latest] at inside
      cases inside
  | some time => rfl

/-- The record of a listed source is dated by its dating rows. -/
theorem found_updatedAt (kind : site.kind ≠ .db) (walked : Walked (machine.listing site.path))
    (proper : ProperRel rel) (member : entry ∈ site.found machine)
    (place : entry.source = joinRel site.path rel) :
    entry.updatedAt = some (datedAt machine site rel) := by
  unfold Site.found at member
  cases shape : site.kind with
  | files rule excludeDirs =>
      rw [shape] at member
      exact foundFiles_updatedAt shape walked proper member place
  | sessionDirs markers =>
      rw [shape] at member
      exact foundDirs_updatedAt (by simp [shape]) walked proper member place
  | grokBotDirs =>
      rw [shape] at member
      exact foundDirs_updatedAt (by simp [shape]) walked proper member place
  | db => exact absurd shape kind

end Found

section Record

variable [HarnessNames] [DocumentCodec] {machine : Machine} {store : LocalStore} {site : Site}
  {entry : Found}

/-- What considering a listed source makes of its record. -/
theorem recordOf_consider_listed {harness : HarnessId} {found : List Found}
    (distinct : (found.map (·.source)).Nodup) (member : entry ∈ found)
    (stale : store.upToDate harness entry = false) :
    ∃ middle : LocalStore, (store.consider machine harness found).recordOf harness entry.source =
      (middle.reading machine harness entry.source entry.fingerprint entry.updatedAt).or
        (store.recordOf harness entry.source) := by
  induction found generalizing store with
  | nil => cases member
  | cons first rest ih =>
      obtain ⟨fresh, others⟩ := List.nodup_cons.mp distinct
      rw [consider_cons]
      rcases List.mem_cons.mp member with rfl | later
      · refine ⟨store, ?_⟩
        rw [recordOf_consider, reconsider_eq, if_neg (Bool.eq_false_iff.mp stale),
          recordOf_reload, if_pos ⟨rfl, rfl⟩]
        refine .inr fun reads => ?_
        obtain ⟨-, other, among, same, -⟩ := mem_foundLoads.mp reads
        exact fresh (List.mem_map.mpr ⟨other, among, same⟩)
      · have kept : (store.reconsider machine harness first.source first.fingerprint
            first.updatedAt).recordOf harness entry.source =
              store.recordOf harness entry.source := by
          rw [reconsider_eq]
          split
          · rfl
          · rw [recordOf_reload, if_neg]
            exact fun both => fresh (List.mem_map.mpr ⟨entry, later, both.2⟩)
        have still := (upToDate_congr kept).trans stale
        obtain ⟨middle, read⟩ := ih others later still
        exact ⟨middle, by rw [read, kept]⟩

theorem recordOf_scanSite_listed (kind : site.kind ≠ .db)
    (distinct : ((site.found machine).map (·.source)).Nodup) (member : entry ∈ site.found machine)
    (stale : store.upToDate site.harness entry = false) :
    ∃ middle : LocalStore, (store.scanSite machine site).recordOf site.harness entry.source =
      (middle.reading machine site.harness entry.source entry.fingerprint entry.updatedAt).or
        (store.recordOf site.harness entry.source) := by
  obtain ⟨middle, read⟩ := recordOf_consider_listed distinct member stale
  refine ⟨middle, Eq.trans ?_ read⟩
  rw [scanSite_files kind]
  unfold LocalStore.scanFound
  dsimp only
  rw [recordOf_dropUnseen, if_neg]
  · rfl
  · exact fun dropped => dropped.2.2 (List.mem_map.mpr ⟨entry, member, rfl⟩)

theorem reading_messageCount {harness : HarnessId} {source fingerprint : String}
    {updatedAt : Option DateTime} {record : SourceRecord}
    (read : store.reading machine harness source fingerprint updatedAt = some record) :
    record.freshness.messageCount = machine.bodyLength harness source := by
  unfold LocalStore.reading at read
  unfold Machine.bodyLength
  split at read
  · rename_i transcript loaded
    cases read
    rw [loaded]
    rfl
  · cases read
  · rename_i message loaded
    cases read
    rw [loaded]
    rfl

/-- What the first scan of a source that is not up to date stores. -/
theorem scanSite_stores (kind : site.kind ≠ .db) (walked : Walked (machine.listing site.path))
    {rel : String} (proper : ProperRel rel) (member : entry ∈ site.found machine)
    (place : entry.source = joinRel site.path rel)
    (stale : store.upToDate site.harness entry = false)
    (read : ¬ Transient machine site.harness entry.source) :
    ∃ record, (store.scanSite machine site).recordOf site.harness entry.source = some record ∧
      record.fingerprint = entry.fingerprint ∧
      record.freshness.updatedAt = some (datedAt machine site rel) ∧
      record.freshness.messageCount = machine.bodyLength site.harness entry.source := by
  obtain ⟨middle, stored⟩ := recordOf_scanSite_listed kind (walked.found kind) member stale
  cases reading : middle.reading machine site.harness entry.source entry.fingerprint
      entry.updatedAt with
  | none => exact absurd (reading_eq_none.mp reading) read
  | some record =>
      obtain ⟨-, -, fingerprint, updatedAt⟩ := reading_fields reading
      rw [reading, Option.some_or] at stored
      exact ⟨record, stored, fingerprint,
        updatedAt.trans (found_updatedAt kind walked proper member place),
        reading_messageCount reading⟩

end Record

section Newer

variable [HarnessNames] [DocumentCodec] {first second : Machine} {store between : LocalStore}
  {site : Site} {rel : String} {one two : Found}

/-- When the record that a later scan stores for a source ranks above the one that an
earlier scan stored: the rows that date it have moved on, or it has more messages. -/
theorem rescan_newer_iff (kind : site.kind ≠ .db) (proper : ProperRel rel)
    (walked : Walked (first.listing site.path)) (again : Walked (second.listing site.path))
    (listed : one ∈ site.found first) (place : one.source = joinRel site.path rel)
    (relisted : two ∈ site.found second) (same : two.source = joinRel site.path rel)
    (stale : store.upToDate site.harness one = false)
    (read : ¬ Transient first site.harness (joinRel site.path rel))
    (kept : between.recordOf site.harness (joinRel site.path rel) =
      (store.scanSite first site).recordOf site.harness (joinRel site.path rel))
    {transcript : Transcript}
    (loads : second.load site.harness (joinRel site.path rel) = .ok transcript) :
    ∃ old new,
      (store.scanSite first site).recordOf site.harness (joinRel site.path rel) = some old ∧
      (between.scanSite second site).recordOf site.harness (joinRel site.path rel) = some new ∧
      (rank old.freshness new.freshness = .right ↔
        one.fingerprint ≠ two.fingerprint ∧
          (datedAt first site rel < datedAt second site rel ∨
            datedAt first site rel = datedAt second site rel ∧
              first.bodyLength site.harness (joinRel site.path rel) < transcript.body.length)) := by
  rw [← place] at read kept loads
  obtain ⟨old, stored, fingerprint, dated, count⟩ :=
    scanSite_stores kind walked proper listed place stale read
  rw [stored, ← same.trans place.symm] at kept
  rw [← same.trans place.symm] at loads
  rw [← place]
  by_cases moved : one.fingerprint = two.fingerprint
  · have current : between.upToDate site.harness two = true :=
      upToDate_iff.mpr ⟨old, kept, fingerprint.trans moved⟩
    have idle : (between.scanSite second site).recordOf site.harness two.source =
        between.recordOf site.harness two.source := by
      rw [recordOf_scanSite, if_neg]
      · exact fun dropped => dropped.2.2 (mem_enumerated relisted)
      · refine .inr fun reads => ?_
        obtain ⟨-, -, entry, member, alike, behind⟩ := mem_siteLoads.mp reads
        obtain rfl := List.inj_on_of_nodup_map (again.found kind) member relisted alike
        cases current.symm.trans behind
    refine ⟨old, old, stored, ?_, ?_⟩
    · rw [← same.trans place.symm, idle, kept]
    · simp [rank_eq_right_iff, moved]
  · have behind : between.upToDate site.harness two = false := by
      rw [Bool.eq_false_iff]
      intro current
      obtain ⟨record, found, alike⟩ := upToDate_iff.mp current
      cases found.symm.trans kept
      exact moved (fingerprint.symm.trans alike)
    have lasting : ¬ Transient second site.harness two.source := by
      intro failed
      obtain ⟨message, broken⟩ := failed
      rw [loads] at broken
      cases broken
    obtain ⟨new, after, -, redated, recount⟩ :=
      scanSite_stores kind again proper relisted same behind lasting
    refine ⟨old, new, stored, ?_, ?_⟩
    · rw [← same.trans place.symm, after]
    · rw [rank_eq_right_iff, rankKey_lt_iff dated redated, count, recount]
      unfold Machine.bodyLength
      rw [loads]
      simp [moved]

omit [HarnessNames] [DocumentCodec] in
theorem datingRows_dirs (kind : ∀ rule excludeDirs, site.kind ≠ .files rule excludeDirs)
    (rows : List TreeRow) : datingRows site.kind rows rel = coveredRows site.kind rows rel := by
  unfold datingRows coveredRows
  cases shape : site.kind with
  | files rule excludeDirs => exact absurd shape (kind rule excludeDirs)
  | sessionDirs => rfl
  | grokBotDirs => rfl
  | db => rfl

omit [HarnessNames] [DocumentCodec] in
/-- In session directories every covered row dates the record, up to the clamp. -/
theorem datedAt_dirs (kind : ∀ rule excludeDirs, site.kind ≠ .files rule excludeDirs)
    (newer : latestMtime (coveredRows site.kind (walkTree first site.path) rel) <
      latestMtime (coveredRows site.kind (walkTree second site.path) rel))
    (fits : latestMtime (coveredRows site.kind (walkTree first site.path) rel) < 2 ^ 64 - 1) :
    datedAt first site rel < datedAt second site rel := by
  unfold datedAt
  rw [datingRows_dirs kind, datingRows_dirs kind]
  generalize latestMtime (coveredRows site.kind (walkTree first site.path) rel) = before at *
  generalize latestMtime (coveredRows site.kind (walkTree second site.path) rel) = after at *
  unfold mtimeDatetime
  show min (before : Int) (2 ^ 64 - 1) < min (after : Int) (2 ^ 64 - 1)
  omega

end Newer

section Sidecar

attribute [local instance] HarnessNames.snakeCase DocumentCodec.padded

def codexSite : Site := ⟨.codex, "/c", .files (.ext "jsonl") []⟩

/-- A session file that is read at two mtimes ranks by them. -/
theorem oneSession_newer : ∃ old new,
    (LocalStore.start.scanSite (oneSession 1 "/a") codexSite).recordOf .codex "/c/s.jsonl" =
        some old ∧
      ((LocalStore.start.scanSite (oneSession 1 "/a") codexSite).scanSite (oneSession 2 "/a")
        codexSite).recordOf .codex "/c/s.jsonl" = some new ∧
      rank old.freshness new.freshness = .right := by
  have proper : ProperRel "s.jsonl" := by
    unfold ProperRel
    decide
  have walked : ∀ mtimeNs, Walked ((oneSession mtimeNs "/a").listing codexSite.path) := by
    intro mtimeNs
    refine ⟨List.nodup_singleton _, ?_⟩
    intro row member
    obtain rfl := List.mem_singleton.mp member
    exact proper
  have kind : codexSite.kind ≠ .db := by decide
  have unread : LocalStore.start.upToDate codexSite.harness ⟨"/c/s.jsonl", "1:1", some 1⟩ =
      false := by
    decide +kernel
  obtain ⟨old, new, stored, restored, ranks⟩ := rescan_newer_iff kind proper (walked 1) (walked 2)
    (List.mem_singleton_self (⟨"/c/s.jsonl", "1:1", some 1⟩ : Found)) (by decide +kernel)
    (List.mem_singleton_self (⟨"/c/s.jsonl", "2:1", some 2⟩ : Found)) (by decide +kernel)
    unread oneSession_reads rfl (by rfl)
  exact ⟨old, new, stored, restored, ranks.mpr ⟨by decide, .inl (by decide +kernel)⟩⟩

/-- A machine with one session database, whose journal alone is written. -/
def journaled (mtimeNs : Nat) (body : String) : Machine where
  roots harness := if harness = .antigravity then ["/c"] else []
  listing _ := [⟨"s.db", 1, 1⟩, ⟨"s.db-wal", mtimeNs, 1⟩]
  stat _ := none
  discover _ _ := .ok []
  loadPath _ _ _ := .ok ⟨⟨"session", 0, none, some "/a", none, none, body⟩, []⟩
  loadDb _ _ _ := .error (.broken "")
  isDir _ := true
  originOf dir := .ok ("https://github.com" ++ dir)
  filePath _ := none
  now := 0

def journalSite : Site := ⟨.antigravity, "/c", .files (.ext "db") []⟩

/-- Two bodies of one session, the second written later, that no copy is chosen from. -/
theorem journaled_ambiguous : ¬ ∀ (site : Site) (rel : String) (first second : Machine)
    (store : LocalStore) (old new : SourceRecord) (transcript : Transcript),
    site.kind ≠ .db → ProperRel rel → Walked (first.listing site.path) →
      Walked (second.listing site.path) →
      joinRel site.path rel ∈ site.enumerated first →
      joinRel site.path rel ∈ site.enumerated second →
      latestMtime (coveredRows site.kind (walkTree first site.path) rel) <
        latestMtime (coveredRows site.kind (walkTree second site.path) rel) →
      (site.harness, joinRel site.path rel) ∈ store.siteLoads first site →
      (store.scanSite first site).recordOf site.harness (joinRel site.path rel) = some old →
      ((store.scanSite first site).scanSite second site).recordOf site.harness
        (joinRel site.path rel) = some new →
      second.load site.harness (joinRel site.path rel) = .ok transcript →
        rank old.freshness new.freshness = .right := by
  intro newer
  have proper : ∀ rel ∈ ["s.db", "s.db-wal"], ProperRel rel := by
    unfold ProperRel
    decide
  have walked : ∀ mtimeNs body, Walked ((journaled mtimeNs body).listing "/c") := by
    intro mtimeNs body
    have rels : ((journaled mtimeNs body).listing "/c").map (·.rel) = ["s.db", "s.db-wal"] := rfl
    refine ⟨by rw [rels]; decide, ?_⟩
    intro row member
    exact proper row.rel (rels ▸ List.mem_map_of_mem member)
  have tied : (((LocalStore.start.scanSite (journaled 1 "a") journalSite).recordOf
      journalSite.harness (joinRel journalSite.path "s.db")).bind fun old =>
        (((LocalStore.start.scanSite (journaled 1 "a") journalSite).scanSite (journaled 2 "b")
          journalSite).recordOf journalSite.harness (joinRel journalSite.path "s.db")).map
            fun new => rank old.freshness new.freshness) = some .ambiguous := by
    decide +kernel
  obtain ⟨old, stored, others⟩ := Option.bind_eq_some_iff.mp tied
  obtain ⟨new, restored, ambiguous⟩ := Option.map_eq_some_iff.mp others
  have loads : (journaled 2 "b").load journalSite.harness (joinRel journalSite.path "s.db") =
      .ok ⟨⟨"session", 0, none, some "/a", none, none, "b"⟩, []⟩ := by
    rfl
  have ranks := newer journalSite "s.db" (journaled 1 "a") (journaled 2 "b") .start old new _
    (by decide) (proper _ (by decide)) (walked 1 "a") (walked 2 "b") (by decide +kernel)
    (by decide +kernel) (by decide +kernel) (by decide +kernel) stored restored loads
  rw [ambiguous] at ranks
  cases ranks

end Sidecar

end AgentTranscript
