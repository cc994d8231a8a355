import AgentTranscript.Local.Newer

/-!
Which rows the fingerprint of a source tells apart. The stats of a session database
and of its side files are joined without saying which side file is missing, and the
members of a directory are written a line each with their names as they are.
-/

set_option autoImplicit false

namespace AgentTranscript

section Definitions

def TreeRow.stamp (row : TreeRow) : Nat × Nat :=
  (row.mtimeNs, row.size)

def rowAt (rows : List TreeRow) (rel : String) : Option TreeRow :=
  rows.find? fun row => row.rel = rel

/-- The rows that make up a source. -/
structure SourceRows where
  main : Option (Nat × Nat)
  wal : Option (Nat × Nat)
  shm : Option (Nat × Nat)
  members : List TreeRow
  deriving DecidableEq

def sourceRows (kind : Kind) (rows : List TreeRow) (rel : String) : SourceRows :=
  match kind with
  | .files rule _ =>
      { main := (rowAt rows rel).map (·.stamp)
        wal := if rule.dbSidecars then (rowAt rows (rel ++ "-wal")).map (·.stamp) else none
        shm := if rule.dbSidecars then (rowAt rows (rel ++ "-shm")).map (·.stamp) else none
        members := if rule.extentDir then membersOf ((stripSuffix rel ".json").getD rel) rows
          else [] }
  | _ => ⟨none, none, none, membersOf rel rows⟩

/-- The fingerprint of a source in a listing. -/
def sourceFingerprint [DocumentCodec] (kind : Kind) (rows : List TreeRow) (rel : String) :
    Option String :=
  match kind with
  | .files _ _ => (rowAt rows rel).map fun row => rowFingerprint row rows kind
  | .sessionDirs _ => some (dirFingerprint (membersOf rel rows))
  | .grokBotDirs => some (dirFingerprint (membersOf rel rows))
  | .db => none

def memberText (rows : List TreeRow) : String :=
  String.join (rows.map TreeRow.line)

/-- One side file, the journal in one listing and the index in the other, that looks alike. -/
structure Swapped (before after : SourceRows) : Prop where
  main : before.main = after.main
  wal : before.wal = after.shm
  shm : before.shm = after.wal
  one : before.wal.isSome ≠ before.shm.isSome
  members : before.members = after.members

/-- Different members that are written alike. -/
structure Garbled (before after : SourceRows) : Prop where
  main : before.main = after.main
  wal : before.wal = after.wal
  shm : before.shm = after.shm
  members : before.members ≠ after.members
  text : memberText before.members = memberText after.members

end Definitions

section Text

theorem not_mem_toDigits {char : Char} (digit : char.isDigit = false) (number : Nat) :
    char ∉ Nat.toDigits 10 number := by
  intro member
  rw [Nat.isDigit_of_mem_toDigits (by decide) (by decide) member] at digit
  cases digit

theorem toDigits_inj {number other : Nat} (same : Nat.toDigits 10 number = Nat.toDigits 10 other) :
    number = other := by
  apply Nat.repr_inj.mp
  apply String.toList_inj.mp
  simpa using same

/-- How a fingerprint writes the stat of a row. -/
def stampText (stamp : Nat × Nat) : List Char :=
  Nat.toDigits 10 stamp.1 ++ ':' :: Nat.toDigits 10 stamp.2

theorem stampText_inj {one other : Nat × Nat} (same : stampText one = stampText other) :
    one = other := by
  obtain ⟨first, second⟩ := Delimited.first_inj (not_mem_toDigits (by decide) _)
    (not_mem_toDigits (by decide) _) same
  exact Prod.ext (toDigits_inj first) (toDigits_inj second)

theorem not_mem_stampText {char : Char} (digit : char.isDigit = false) (colon : char ≠ ':')
    (stamp : Nat × Nat) : char ∉ stampText stamp := by
  unfold stampText
  simp [not_mem_toDigits digit, colon]

def TreeRow.lineChars (row : TreeRow) : List Char :=
  row.rel.toList ++ ':' :: stampText row.stamp

theorem line_toList (row : TreeRow) : row.line.toList = row.lineChars ++ ['\n'] := by
  have plain : ∀ text : String, toString text = text := fun _ => rfl
  simp [TreeRow.line, TreeRow.lineChars, stampText, TreeRow.stamp, plain]

theorem memberText_toList (rows : List TreeRow) :
    (memberText rows).toList = Delimited.terminated '\n' (rows.map TreeRow.lineChars) := by
  unfold memberText Delimited.terminated
  rw [String.toList_join, List.flatMap_map, List.flatMap_map]
  simp only [line_toList]

theorem lineChars_inj {one other : TreeRow} (same : one.lineChars = other.lineChars) :
    one = other := by
  have split : ∀ row : TreeRow, row.lineChars =
      (row.rel.toList ++ ':' :: Nat.toDigits 10 row.mtimeNs) ++ ':' :: Nat.toDigits 10 row.size := by
    intro row
    simp [TreeRow.lineChars, stampText, TreeRow.stamp]
  rw [split, split] at same
  obtain ⟨front, size⟩ := Delimited.last_inj (not_mem_toDigits (by decide) _)
    (not_mem_toDigits (by decide) _) same
  obtain ⟨rel, mtime⟩ := Delimited.last_inj (not_mem_toDigits (by decide) _)
    (not_mem_toDigits (by decide) _) front
  have rels := String.toList_inj.mp rel
  have mtimes := toDigits_inj mtime
  have sizes := toDigits_inj size
  cases one
  cases other
  cases rels
  cases mtimes
  cases sizes
  rfl

/-- Members without a line break in their paths can be read back from their lines. -/
theorem memberText_inj {rows others : List TreeRow} (single : ∀ row ∈ rows, '\n' ∉ row.rel.toList)
    (also : ∀ row ∈ others, '\n' ∉ row.rel.toList) (same : memberText rows = memberText others) :
    rows = others := by
  have lines : ∀ list : List TreeRow, (∀ row ∈ list, '\n' ∉ row.rel.toList) →
      ∀ part ∈ list.map TreeRow.lineChars, '\n' ∉ part := by
    intro list whole part member
    obtain ⟨row, among, rfl⟩ := List.mem_map.mp member
    unfold TreeRow.lineChars
    simp [whole row among, not_mem_stampText]
  have terminated := congrArg String.toList same
  rw [memberText_toList, memberText_toList] at terminated
  have parts := Delimited.terminated_inj (lines rows single) (lines others also) terminated
  exact List.map_injective_iff.mpr (fun _ _ => lineChars_inj) parts

end Text

section Rows

variable [DocumentCodec] {before after rows : List TreeRow} {row : TreeRow} {kind : Kind}
  {rel : String}

/-- The side files that are there, in the order that a fingerprint writes them. -/
def SourceRows.sidecars (source : SourceRows) : List (Nat × Nat) :=
  [source.wal, source.shm].filterMap id

/-- What the fingerprint of a file writes between its separators. -/
def fileParts (rule : FileRule) (row : TreeRow) (source : SourceRows) : List (List Char) :=
  stampText row.stamp :: (source.sidecars.map stampText ++
    if rule.extentDir then [(dirFingerprint source.members).toList] else [])

theorem rowFingerprint_toList {rule : FileRule} {excludeDirs : List String} :
    (rowFingerprint row rows (.files rule excludeDirs)).toList =
      ['|'].intercalate (fileParts rule row (sourceRows (.files rule excludeDirs) rows row.rel)) := by
  have plain : ∀ text : String, toString text = text := fun _ => rfl
  unfold fileParts
  rw [Delimited.intercalate_cons]
  unfold rowFingerprint sourceRows SourceRows.sidecars
  simp only [plain, stampText, TreeRow.stamp, String.toList_append, List.flatMap_append,
    String.toList_join, ← List.append_assoc]
  congr 1
  · congr 1
    · simp
    · cases rule.dbSidecars with
      | false => rfl
      | true =>
          simp only [if_true, rowAt, List.filterMap_cons, List.filterMap_nil]
          cases rows.find? fun other => other.rel = row.rel ++ "-wal" <;>
            cases rows.find? fun other => other.rel = row.rel ++ "-shm" <;> simp [stampText]
  · cases rule.extentDir <;> simp

theorem not_mem_fileParts (rule : FileRule) (row : TreeRow) (source : SourceRows) :
    ∀ part ∈ fileParts rule row source, '|' ∉ part := by
  intro part member
  unfold fileParts at member
  rcases List.mem_cons.mp member with rfl | rest
  · exact not_mem_stampText (by decide) (by decide) _
  rcases List.mem_append.mp rest with sidecar | extent
  · obtain ⟨stamp, -, rfl⟩ := List.mem_map.mp sidecar
    exact not_mem_stampText (by decide) (by decide) _
  · split at extent
    · rw [List.mem_singleton.mp extent]
      intro inside
      have digits := List.all_eq_true.mp (DocumentCodec.sha256Hex_digits _) _ inside
      revert digits
      decide
    · cases extent

theorem dirFingerprint_eq_iff (hash : DocumentCodec.sha256Hex (asBytes (memberText before)) =
      DocumentCodec.sha256Hex (asBytes (memberText after)) →
        asBytes (memberText before) = asBytes (memberText after)) :
    dirFingerprint before = dirFingerprint after ↔ memberText before = memberText after := by
  constructor
  · intro same
    exact asBytes_injective (hash same)
  · intro same
    exact congrArg (fun text : String => DocumentCodec.sha256Hex (asBytes text)) same

theorem fileParts_eq_iff {rule : FileRule} {last : TreeRow} {one two : SourceRows}
    (dirs : dirFingerprint one.members = dirFingerprint two.members ↔
      memberText one.members = memberText two.members)
    (bare : rule.extentDir = false → one.members = two.members) :
    fileParts rule row one = fileParts rule last two ↔ row.stamp = last.stamp ∧
      one.sidecars = two.sidecars ∧ memberText one.members = memberText two.members := by
  constructor
  · intro same
    obtain ⟨stamp, rest⟩ := List.cons_eq_cons.mp same
    have lengths : (if rule.extentDir then [(dirFingerprint one.members).toList] else []).length =
        (if rule.extentDir then [(dirFingerprint two.members).toList] else []).length := by
      split <;> rfl
    obtain ⟨sidecars, extent⟩ := List.append_inj' rest lengths
    refine ⟨stampText_inj stamp, List.map_injective_iff.mpr (fun _ _ => stampText_inj) sidecars, ?_⟩
    cases shape : rule.extentDir with
    | false => rw [bare shape]
    | true =>
        rw [shape, if_pos rfl, if_pos rfl, List.singleton_inj, String.toList_inj] at extent
        exact dirs.mp extent
  · intro same
    obtain ⟨stamp, sidecars, text⟩ := same
    rw [fileParts, fileParts, stamp, sidecars, dirs.mpr text]

omit [DocumentCodec] in
theorem sidecars_cases {one other : SourceRows} (same : one.sidecars = other.sidecars) :
    (one.wal = other.wal ∧ one.shm = other.shm) ∨
      one.wal = other.shm ∧ one.shm = other.wal ∧ one.wal.isSome ≠ one.shm.isSome := by
  obtain ⟨main, wal, shm, members⟩ := one
  obtain ⟨otherMain, otherWal, otherShm, otherMembers⟩ := other
  unfold SourceRows.sidecars at same
  cases wal <;> cases shm <;> cases otherWal <;> cases otherShm <;> simp_all

/-- Two fingerprints of one source agree when its main rows, the stamps of the side files
that are there, and the texts of its members do. -/
theorem sourceFingerprint_eq_iff {first second : String}
    (one : sourceFingerprint kind before rel = some first)
    (two : sourceFingerprint kind after rel = some second)
    (hash : DocumentCodec.sha256Hex (asBytes (memberText (sourceRows kind before rel).members)) =
      DocumentCodec.sha256Hex (asBytes (memberText (sourceRows kind after rel).members)) →
        asBytes (memberText (sourceRows kind before rel).members) =
          asBytes (memberText (sourceRows kind after rel).members)) :
    first = second ↔ (sourceRows kind before rel).main = (sourceRows kind after rel).main ∧
      (sourceRows kind before rel).sidecars = (sourceRows kind after rel).sidecars ∧
      memberText (sourceRows kind before rel).members =
        memberText (sourceRows kind after rel).members := by
  have dirs := dirFingerprint_eq_iff hash
  cases kind with
  | files rule excludeDirs =>
      obtain ⟨row, found, rfl⟩ := Option.map_eq_some_iff.mp one
      obtain ⟨other, again, rfl⟩ := Option.map_eq_some_iff.mp two
      have place : row.rel = rel := by simpa using List.find?_some found
      have also : other.rel = rel := by simpa using List.find?_some again
      have main : (sourceRows (.files rule excludeDirs) before rel).main = some row.stamp := by
        simp [sourceRows, found]
      have stays : (sourceRows (.files rule excludeDirs) after rel).main = some other.stamp := by
        simp [sourceRows, again]
      have bare : rule.extentDir = false →
          (sourceRows (.files rule excludeDirs) before rel).members =
            (sourceRows (.files rule excludeDirs) after rel).members := by
        intro plain
        simp [sourceRows, plain]
      rw [← String.toList_inj, rowFingerprint_toList, rowFingerprint_toList, place, also, main, stays,
        Option.some_inj]
      generalize sourceRows (.files rule excludeDirs) before rel = one at *
      generalize sourceRows (.files rule excludeDirs) after rel = two at *
      have parts : fileParts rule row one = fileParts rule other two ↔
          ['|'].intercalate (fileParts rule row one) = ['|'].intercalate (fileParts rule other two) :=
        ⟨congrArg _, Delimited.intercalate_inj (not_mem_fileParts _ _ _) (not_mem_fileParts _ _ _)
          (List.cons_ne_nil _ _) (List.cons_ne_nil _ _)⟩
      exact parts.symm.trans (fileParts_eq_iff dirs bare)
  | sessionDirs markers =>
      cases one
      cases two
      simpa [sourceRows, SourceRows.sidecars] using dirs
  | grokBotDirs =>
      cases one
      cases two
      simpa [sourceRows, SourceRows.sidecars] using dirs
  | db => cases one

omit [DocumentCodec] in
/-- A source with side files has no members. -/
theorem sourceRows_members (kind : Kind) (rows : List TreeRow) (rel : String)
    (one : (sourceRows kind rows rel).wal.isSome ≠ (sourceRows kind rows rel).shm.isSome) :
    (sourceRows kind rows rel).members = [] := by
  cases kind with
  | files rule excludeDirs =>
      cases rule with
      | ext extension => rfl
      | coworkRecord => exact absurd rfl one
  | sessionDirs markers => exact absurd rfl one
  | grokBotDirs => exact absurd rfl one
  | db => exact absurd rfl one

omit [DocumentCodec] in
theorem Garbled.newline {one other : SourceRows} (garbled : Garbled one other) :
    ∃ row ∈ one.members ++ other.members, '\n' ∈ row.rel.toList := by
  by_contra single
  push Not at single
  exact garbled.members (memberText_inj
    (fun row member => single row (List.mem_append_left _ member))
    (fun row member => single row (List.mem_append_right _ member)) garbled.text)

/-- When an unchanged fingerprint means unchanged rows. -/
theorem sourceFingerprint_tells_iff {first second : String}
    (one : sourceFingerprint kind before rel = some first)
    (two : sourceFingerprint kind after rel = some second)
    (hash : DocumentCodec.sha256Hex (asBytes (memberText (sourceRows kind before rel).members)) =
      DocumentCodec.sha256Hex (asBytes (memberText (sourceRows kind after rel).members)) →
        asBytes (memberText (sourceRows kind before rel).members) =
          asBytes (memberText (sourceRows kind after rel).members)) :
    (first = second → sourceRows kind before rel = sourceRows kind after rel) ↔
      ¬ Swapped (sourceRows kind before rel) (sourceRows kind after rel) ∧
        ¬ Garbled (sourceRows kind before rel) (sourceRows kind after rel) := by
  rw [sourceFingerprint_eq_iff one two hash]
  have memberless := sourceRows_members kind before rel
  have bare := sourceRows_members kind after rel
  generalize sourceRows kind before rel = old at *
  generalize sourceRows kind after rel = new at *
  constructor
  · intro tells
    constructor
    · intro swapped
      have sidecars : old.sidecars = new.sidecars := by
        have alone := swapped.one
        unfold SourceRows.sidecars
        rw [← swapped.wal, ← swapped.shm]
        revert alone
        cases old.wal <;> cases old.shm <;> simp
      have same := tells ⟨swapped.main, sidecars, by rw [swapped.members]⟩
      have mixed := swapped.wal
      rw [← same] at mixed
      exact swapped.one (by rw [mixed])
    · intro garbled
      have sidecars : old.sidecars = new.sidecars := by
        rw [SourceRows.sidecars, garbled.wal, garbled.shm]
        rfl
      exact garbled.members (by rw [tells ⟨garbled.main, sidecars, garbled.text⟩])
  · intro plain same
    obtain ⟨main, sidecars, text⟩ := same
    rcases sidecars_cases sidecars with ⟨wal, shm⟩ | ⟨wal, shm, alone⟩
    · by_cases members : old.members = new.members
      · cases old
        cases new
        cases main
        cases wal
        cases shm
        cases members
        rfl
      · exact absurd ⟨main, wal, shm, members, text⟩ plain.2
    · have also : new.wal.isSome ≠ new.shm.isSome := by
        rw [← wal, ← shm]
        exact alone.symm
      exact absurd ⟨main, wal, shm, alone, (memberless alone).trans (bare also).symm⟩ plain.1

end Rows

section Listed

variable [HarnessNames] [DocumentCodec] {machine : Machine} {site : Site} {rel : String}
  {entry : Found}

/-- The fingerprint of a source is the one that a diff finds it with. -/
theorem found_fingerprint (kind : site.kind ≠ .db) (walked : Walked (machine.listing site.path))
    (proper : ProperRel rel) (member : entry ∈ site.found machine)
    (place : entry.source = joinRel site.path rel) :
    sourceFingerprint site.kind (walkTree machine site.path) rel = some entry.fingerprint := by
  have dirs : entry ∈ foundDirs machine site →
      entry.fingerprint = dirFingerprint (membersOf rel (walkTree machine site.path)) := by
    intro listed
    obtain ⟨dir, among, rfl⟩ := List.mem_map.mp listed
    obtain rfl : dir = rel := joinRel_inj (walked.sorted.sessionDirs _ dir among) proper place
    rfl
  unfold Site.found at member
  unfold sourceFingerprint
  cases shape : site.kind with
  | files rule excludeDirs =>
      rw [shape] at member
      obtain ⟨row, among, rfl⟩ := List.mem_map.mp member
      have listed := (List.mem_filter.mp among).1
      obtain rfl : row.rel = rel := joinRel_inj (walked.sorted.proper row listed) proper place
      have found : rowAt (walkTree machine site.path) row.rel = some row := by
        rw [rowAt, ← List.head?_filter, walked.sorted.filter_rel listed]
        rfl
      simp only [found, Option.map_some, shape]
  | sessionDirs markers =>
      rw [shape] at member
      simp only [dirs member]
  | grokBotDirs =>
      rw [shape] at member
      simp only [dirs member]
  | db => exact absurd shape kind

end Listed

section Journal

attribute [local instance] DocumentCodec.padded

theorem reordered_tells : sourceRows (.files (.ext "db") [])
      [⟨"s.db", 1, 1⟩, ⟨"s.db-shm", 3, 3⟩, ⟨"s.db-wal", 2, 2⟩] "s.db" =
    sourceRows (.files (.ext "db") [])
      [⟨"s.db-wal", 2, 2⟩, ⟨"s.db", 1, 1⟩, ⟨"s.db-shm", 3, 3⟩, ⟨"t.db", 4, 4⟩] "s.db" := by
  have one : sourceFingerprint (.files (.ext "db") [])
      [⟨"s.db", 1, 1⟩, ⟨"s.db-shm", 3, 3⟩, ⟨"s.db-wal", 2, 2⟩] "s.db" = some "1:1|2:2|3:3" := by
    decide +kernel
  have two : sourceFingerprint (.files (.ext "db") [])
      [⟨"s.db-wal", 2, 2⟩, ⟨"s.db", 1, 1⟩, ⟨"s.db-shm", 3, 3⟩, ⟨"t.db", 4, 4⟩] "s.db" =
        some "1:1|2:2|3:3" := by
    decide +kernel
  have plain : ¬ Swapped ⟨some (1, 1), some (2, 2), some (3, 3), []⟩
      ⟨some (1, 1), some (2, 2), some (3, 3), []⟩ := by
    intro swapped
    cases swapped.wal
  have written : ¬ Garbled ⟨some (1, 1), some (2, 2), some (3, 3), []⟩
      ⟨some (1, 1), some (2, 2), some (3, 3), []⟩ :=
    fun garbled => garbled.members rfl
  exact (sourceFingerprint_tells_iff one two fun _ => rfl).mpr ⟨plain, written⟩ rfl

/-- A journal that goes away while an index of the same size and time appears. -/
theorem journal_swapped : ¬ ∀ (kind : Kind) (before after : List TreeRow) (rel first second : String),
    (before.map (·.rel)).Nodup → (after.map (·.rel)).Nodup →
      sourceFingerprint kind before rel = some first →
      sourceFingerprint kind after rel = some second →
      (DocumentCodec.sha256Hex (asBytes (memberText (sourceRows kind before rel).members)) =
        DocumentCodec.sha256Hex (asBytes (memberText (sourceRows kind after rel).members)) →
          asBytes (memberText (sourceRows kind before rel).members) =
            asBytes (memberText (sourceRows kind after rel).members)) →
      first = second → sourceRows kind before rel = sourceRows kind after rel := by
  intro tells
  have same := tells (.files (.ext "db") []) [⟨"s.db", 1, 1⟩, ⟨"s.db-wal", 2, 0⟩]
    [⟨"s.db", 1, 1⟩, ⟨"s.db-shm", 2, 0⟩] "s.db" "1:1|2:0" "1:1|2:0" (by decide) (by decide)
    (by decide +kernel) (by decide +kernel) (fun _ => rfl) rfl
  revert same
  decide +kernel

end Journal

end AgentTranscript
