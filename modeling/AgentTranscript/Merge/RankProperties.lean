import AgentTranscript.Library.Ranking
import AgentTranscript.Merge.Freshness

/-! `rank` compares two snapshots by one key in a linear order, so the loop of
`choose_current` is a scan for the first snapshot of greatest key. -/

set_option autoImplicit false

namespace AgentTranscript

open Ranking

/-- What `rank` compares before the content hash: the time, absent lowest, and
then the message count. -/
def Freshness.rankKey (freshness : Freshness) : WithBot DateTime ×ₗ Nat :=
  toLex (freshness.time.elim ⊥ (fun time => (time : WithBot DateTime)), freshness.messageCount)

theorem rank_eq (left right : Freshness) :
    rank left right =
      if right.rankKey < left.rankKey then .left
      else if left.rankKey < right.rankKey then .right
      else if left.contentHash = right.contentHash then .same
      else .ambiguous := by
  simp only [Freshness.rankKey, Prod.Lex.toLex_lt_toLex]
  unfold rank
  cases leftTime : left.time with
  | none =>
      cases rightTime : right.time with
      | none => simp [rankByCount]
      | some rightAt => simp
  | some leftAt =>
      cases rightTime : right.time with
      | none => simp
      | some rightAt =>
          rcases lt_trichotomy leftAt rightAt with older | same | newer
          · simp [older, older.ne, older.not_gt, older.ne']
          · simp [same, rankByCount]
          · simp [newer, newer.ne, newer.ne']

theorem rank_eq_right_iff {left right : Freshness} :
    rank left right = .right ↔ left.rankKey < right.rankKey := by
  rw [rank_eq]
  constructor
  · intro newer
    split at newer
    · cases newer
    · split at newer
      · assumption
      · split at newer <;> cases newer
  · intro newer
    rw [if_neg newer.not_gt, if_pos newer]

theorem rankKey_lt_iff {left right : Freshness} {before after : DateTime}
    (dated : left.updatedAt = some before) (again : right.updatedAt = some after) :
    left.rankKey < right.rankKey ↔
      before < after ∨ before = after ∧ left.messageCount < right.messageCount := by
  simp only [Freshness.rankKey, Freshness.time, dated, again, Option.some_or, Option.elim_some,
    Prod.Lex.toLex_lt_toLex, WithBot.coe_lt_coe, WithBot.coe_inj]

theorem prefer_eq (left right : Freshness) :
    prefer left right =
      if right.rankKey < left.rankKey then .local
      else if left.rankKey < right.rankKey then .remote
      else if left.contentHash = right.contentHash then .local
      else .ambiguous := by
  rw [prefer, rank_eq]
  split_ifs <;> rfl

theorem chooseStep_eq :
    chooseStep = scanStep (fun item : Freshness × Nat => item.1.rankKey)
      (fun item => item.1.contentHash) := by
  funext state item
  rw [chooseStep, rank_eq, scanStep]
  split_ifs <;> rfl

abbrev topHashes (items : List Freshness) : Set String :=
  topBodies Freshness.rankKey Freshness.contentHash items

/-- A copy of `current`'s body at a lower rank still ranks above every other body. -/
def Undisplaced (items : List Freshness) (current : Freshness) : Prop :=
  ∀ stale ∈ items, stale.contentHash = current.contentHash → stale.rankKey < current.rankKey →
    ∀ other ∈ items, other.contentHash ≠ current.contentHash → other.rankKey < stale.rankKey

private theorem chooseCurrent_cons (head : Freshness) (tail : List Freshness) :
    ∃ entry tied, Standing (fun item : Freshness × Nat => item.1.rankKey)
        (fun item => item.1.contentHash) (head :: tail).zipIdx (entry, tied) ∧
      chooseCurrent (head :: tail) =
        .ok (if tied then .ambiguous entry.2 else .index entry.2) := by
  have standing := scan_standing (fun item : Freshness × Nat => item.1.rankKey)
    (fun item => item.1.contentHash) (head, 0) (tail.zipIdx 1)
  rw [← List.zipIdx_cons] at standing
  refine ⟨_, _, standing, ?_⟩
  rw [chooseCurrent, List.zipIdx_cons, chooseStep_eq]

/-- The position `choose_current` answers holds the first snapshot of greatest
rank; the answer is ambiguous exactly when two hashes share that rank. -/
theorem chooseCurrent_spec {items : List Freshness} (nonempty : items ≠ []) :
    ∃ position current, IsFirstTopAt Freshness.rankKey items position current ∧
      ((chooseCurrent items = .ok (.index position) ∧ topHashes items = {current.contentHash}) ∨
        (chooseCurrent items = .ok (.ambiguous position) ∧ (topHashes items).Nontrivial)) := by
  cases items with
  | nil => exact absurd rfl nonempty
  | cons head tail =>
      obtain ⟨entry, tied, standing, answer⟩ := chooseCurrent_cons head tail
      have chosen := isFirstTopAt_of_zipIdx standing.best
      have bodies : topBodies (fun item : Freshness × Nat => item.1.rankKey)
          (fun item => item.1.contentHash) (head :: tail).zipIdx = topHashes (head :: tail) := by
        rw [topHashes, ← topBodies_map, List.zipIdx_map_fst]
      have decided := standing.tied
      rw [Tied, bodies] at decided
      refine ⟨entry.2, entry.1, chosen, ?_⟩
      cases tied with
      | false =>
          have settled : ¬ Tied Freshness.rankKey Freshness.contentHash (head :: tail) :=
            fun nontrivial => absurd (decided.mpr nontrivial) (by simp)
          exact .inl ⟨by simpa using answer,
            topBodies_eq_singleton chosen.isFirstTop.isTopOf settled⟩
      | true => exact .inr ⟨by simpa using answer, decided.mp rfl⟩

/-- What the choice among snapshots means to a reader. -/
inductive Verdict where
  | winner (contentHash : String)
  | ambiguous
  deriving DecidableEq, Repr

def Current.verdict (items : List Freshness) : Current → Option Verdict
  | .index position => (items[position]?).map fun current => .winner current.contentHash
  | .ambiguous _ => some .ambiguous

def verdict (items : List Freshness) : Option Verdict :=
  match chooseCurrent items with
  | .ok current => current.verdict items
  | .error _ => none

theorem verdict_nil : verdict [] = none := rfl

theorem verdict_cases {items : List Freshness} (nonempty : items ≠ []) :
    (∃ contentHash, verdict items = some (.winner contentHash) ∧
        topHashes items = {contentHash}) ∨
      (verdict items = some .ambiguous ∧ (topHashes items).Nontrivial) := by
  obtain ⟨position, current, chosen, ⟨answer, only⟩ | ⟨answer, several⟩⟩ :=
    chooseCurrent_spec nonempty
  · exact .inl ⟨current.contentHash,
      by simp [verdict, answer, Current.verdict, chosen.getElem?], only⟩
  · exact .inr ⟨by simp [verdict, answer, Current.verdict], several⟩

theorem verdict_eq_ambiguous_iff {items : List Freshness} :
    verdict items = some .ambiguous ↔ (topHashes items).Nontrivial := by
  cases items with
  | nil => simp [verdict_nil, topHashes]
  | cons head tail =>
      obtain ⟨contentHash, answer, only⟩ | ⟨answer, several⟩ :=
        verdict_cases (List.cons_ne_nil head tail)
      · simp [answer, only]
      · simp [answer, several]

theorem verdict_eq_winner_iff {items : List Freshness} {contentHash : String} :
    verdict items = some (.winner contentHash) ↔ topHashes items = {contentHash} := by
  cases items with
  | nil => simp [verdict_nil, topHashes, (Set.singleton_ne_empty contentHash).symm]
  | cons head tail =>
      obtain ⟨winner, answer, only⟩ | ⟨answer, several⟩ :=
        verdict_cases (List.cons_ne_nil head tail)
      · simp [answer, only]
      · constructor
        · intro wrong
          simp [answer] at wrong
        · intro only
          exact absurd (only ▸ several) Set.not_nontrivial_singleton

theorem verdict_eq_of_topHashes {left right : List Freshness}
    (same : topHashes left = topHashes right) : verdict left = verdict right := by
  cases left with
  | nil =>
      cases right with
      | nil => rfl
      | cons head tail =>
          have occupied : (topHashes (head :: tail)).Nonempty :=
            topBodies_nonempty (List.cons_ne_nil head tail)
          exact absurd (same.symm.trans topBodies_nil) occupied.ne_empty
  | cons head tail =>
      obtain ⟨winner, answer, only⟩ | ⟨answer, several⟩ :=
        verdict_cases (List.cons_ne_nil head tail)
      · rw [answer]
        exact (verdict_eq_winner_iff.mpr (same ▸ only)).symm
      · rw [answer]
        exact (verdict_eq_ambiguous_iff.mpr (same ▸ several)).symm

end AgentTranscript
