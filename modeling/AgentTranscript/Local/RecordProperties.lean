import AgentTranscript.Library.Loop
import AgentTranscript.Local.Record

/-! Grouping splits the records of sessions by their key, in order. -/

set_option autoImplicit false

namespace AgentTranscript

open Loop

def copiesOf (records : List SourceRecord) (key : GroupKey) : List SourceRecord :=
  records.filter fun record => record.grouped && record.groupKey = key

@[simp] theorem mem_copiesOf {records : List SourceRecord} {key : GroupKey}
    {record : SourceRecord} :
    record ∈ copiesOf records key ↔
      record ∈ records ∧ record.grouped = true ∧ record.groupKey = key := by
  simp [copiesOf]

theorem copiesOf_snoc (records : List SourceRecord) (record : SourceRecord) (key : GroupKey) :
    copiesOf (records ++ [record]) key = copiesOf records key ++
      if record.grouped && record.groupKey = key then [record] else [] := by
  rw [copiesOf, List.filter_append, ← copiesOf, List.filter_singleton, Bool.cond_eq_ite]

structure Groups (seen : List SourceRecord) (groups : List (GroupKey × List SourceRecord)) :
    Prop where
  unique : (groups.map (·.1)).Nodup
  copies : ∀ entry ∈ groups, entry.2 = copiesOf seen entry.1 ∧ entry.2 ≠ []
  covers : ∀ record ∈ seen, record.grouped = true → record.groupKey ∈ groups.map (·.1)

theorem groupInsert_keys (record : SourceRecord) (groups : List (GroupKey × List SourceRecord)) :
    (groupInsert record groups).map (·.1) =
      if record.groupKey ∈ groups.map (·.1) then groups.map (·.1)
      else groups.map (·.1) ++ [record.groupKey] := by
  induction groups with
  | nil => rfl
  | cons entry rest ih =>
      unfold groupInsert
      by_cases same : entry.1 = record.groupKey
      · simp [same]
      · simp only [same, if_false, List.map_cons, ih, List.mem_cons, Ne.symm same, false_or]
        split <;> rfl

/-- An entry of another key was there before; the entry of the record's key ends
with the record. -/
theorem mem_groupInsert {record : SourceRecord} {groups : List (GroupKey × List SourceRecord)}
    {entry : GroupKey × List SourceRecord} (unique : (groups.map (·.1)).Nodup)
    (member : entry ∈ groupInsert record groups) :
    (entry ∈ groups ∧ entry.1 ≠ record.groupKey) ∨
      (∃ old ∈ groups, old.1 = record.groupKey ∧ entry = (old.1, old.2 ++ [record])) ∨
      (record.groupKey ∉ groups.map (·.1) ∧ entry = (record.groupKey, [record])) := by
  induction groups with
  | nil => exact .inr (.inr ⟨by simp, by simpa [groupInsert] using member⟩)
  | cons head rest ih =>
      rw [List.map_cons, List.nodup_cons] at unique
      unfold groupInsert at member
      by_cases same : head.1 = record.groupKey
      · rw [if_pos same] at member
        rcases List.mem_cons.mp member with updated | old
        · exact .inr (.inl ⟨head, by simp, same, updated⟩)
        · refine .inl ⟨by simp [old], ?_⟩
          intro again
          exact unique.1 (same ▸ again ▸ List.mem_map_of_mem old)
      · rw [if_neg same] at member
        rcases List.mem_cons.mp member with kept | later
        · exact .inl ⟨by simp [kept], kept ▸ same⟩
        · rcases ih unique.2 later with old | changed
          · exact .inl ⟨by simp [old.1], old.2⟩
          · rcases changed with updated | fresh
            · obtain ⟨old, present, rest⟩ := updated
              exact .inr (.inl ⟨old, by simp [present], rest⟩)
            · exact .inr (.inr ⟨by simpa [Ne.symm same] using fresh.1, fresh.2⟩)

theorem Groups.insert {seen : List SourceRecord} {groups : List (GroupKey × List SourceRecord)}
    (holds : Groups seen groups) {record : SourceRecord} (eligible : record.grouped = true) :
    Groups (seen ++ [record]) (groupInsert record groups) where
  unique := by
    rw [groupInsert_keys]
    split
    · exact holds.unique
    · rename_i fresh
      rw [List.nodup_append]
      refine ⟨holds.unique, by simp, ?_⟩
      intro old included new single same
      exact fresh (List.mem_singleton.mp single ▸ same ▸ included)
  copies := by
    intro entry member
    rw [copiesOf_snoc]
    rcases mem_groupInsert holds.unique member with other | changed
    · obtain ⟨shape, nonempty⟩ := holds.copies entry other.1
      simp [Ne.symm other.2, ← shape, nonempty]
    · rcases changed with updated | fresh
      · obtain ⟨old, present, sameKey, rfl⟩ := updated
        simp [eligible, sameKey, (holds.copies old present).1]
      · obtain ⟨absent, rfl⟩ := fresh
        have none : copiesOf seen record.groupKey = [] := by
          apply List.filter_eq_nil_iff.mpr
          intro other present matched
          have both : other.grouped = true ∧ other.groupKey = record.groupKey := by
            simpa using matched
          exact absent (both.2 ▸ holds.covers other present both.1)
        simp [eligible, none]
  covers := by
    intro other member known
    have grown : ∀ key, key ∈ groups.map (·.1) ∨ key = record.groupKey →
        key ∈ (groupInsert record groups).map (·.1) := by
      intro key either
      rw [groupInsert_keys]
      split
      · rcases either with old | same
        · exact old
        · rename_i present
          exact same ▸ present
      · simpa using either
    rcases List.mem_append.mp member with old | new
    · exact grown _ (.inl (holds.covers other old known))
    · exact grown _ (.inr (by rw [List.mem_singleton.mp new]))

theorem grouped_groups (records : List SourceRecord) : Groups records (grouped records) := by
  apply foldl_invariant (fun seen groups => Groups seen groups)
  · exact ⟨List.nodup_nil, by simp, by simp⟩
  · intro seen record rest groups _ holds
    by_cases eligible : record.grouped = true
    · rw [if_pos eligible]
      exact holds.insert eligible
    · rw [if_neg eligible]
      refine ⟨holds.unique, ?_, ?_⟩
      · intro entry member
        simpa [copiesOf_snoc, eligible] using holds.copies entry member
      · intro other member known
        rcases List.mem_append.mp member with old | new
        · exact holds.covers other old known
        · exact absurd (List.mem_singleton.mp new ▸ known) eligible

theorem mem_grouped_iff {records : List SourceRecord} {entry : GroupKey × List SourceRecord} :
    entry ∈ grouped records ↔ entry.2 = copiesOf records entry.1 ∧ entry.2 ≠ [] := by
  have holds := grouped_groups records
  constructor
  · exact fun member => holds.copies entry member
  · intro given
    obtain ⟨shape, nonempty⟩ := given
    obtain ⟨record, member⟩ := List.exists_mem_of_ne_nil _ nonempty
    have found := mem_copiesOf.mp (shape ▸ member)
    have keyed := holds.covers record found.1 found.2.1
    obtain ⟨other, present, sameKey⟩ := List.mem_map.mp keyed
    have equal : other = entry := by
      have ofKey : other.1 = entry.1 := sameKey.trans found.2.2
      exact Prod.ext ofKey ((holds.copies other present).1.trans (ofKey ▸ shape.symm))
    exact equal ▸ present

end AgentTranscript
