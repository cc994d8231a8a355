import AgentTranscript.Remote.Sigv4

/-!
Canonical query strings. The signature wants the pairs in the order of their names; the
joined texts are in that order only where no name is continued by a character below the
equals sign.
-/

set_option autoImplicit false

namespace AgentTranscript

section Definitions

def encodedPair (pair : String × String) : String × String :=
  (Sigv4.encode pair.1 false, Sigv4.encode pair.2 false)

def joinPair (pair : String × String) : String :=
  pair.1 ++ "=" ++ pair.2

def canonicalQuery (pairs : List (String × String)) : String :=
  "&".intercalate ((pairs.map fun pair => joinPair (encodedPair pair)).insertionSort (· ≤ ·))

/-- The canonical query string of the specification: encoded pairs in the order of names,
then of values. -/
def specifiedQuery (pairs : List (String × String)) : String :=
  "&".intercalate (((pairs.map encodedPair).insertionSort
    fun left right => toLex left ≤ toLex right).map joinPair)

/-- An encoded name goes on where another ends, with a character below the equals sign. -/
def ContinuedBy (name longer : String) : Prop :=
  ∃ next rest, (Sigv4.encode longer false).toList =
    (Sigv4.encode name false).toList ++ next :: rest ∧ next < '='

end Definitions

section Order

variable {name longer value other : List Char}

/-- Before an equals sign a name comes before a greater one, unless that continues it with
a smaller character. -/
theorem join_le (absent : '=' ∉ longer)
    (plain : ∀ next rest, longer = name ++ next :: rest → ¬ next < '=')
    (smaller : name < longer ∨ name = longer ∧ value ≤ other) :
    name ++ '=' :: value ≤ longer ++ '=' :: other := by
  induction name generalizing longer with
  | nil =>
      cases longer with
      | nil =>
          rcases smaller with wrong | ⟨-, below⟩
          · exact absurd wrong (lt_irrefl _)
          · exact List.cons_le_cons _ below
      | cons next rest =>
          have above := plain next rest rfl
          have different : '=' ≠ next := fun same => absent (same ▸ List.mem_cons_self)
          exact (List.cons_lt_cons_iff.mpr (.inl (lt_of_le_of_ne (not_lt.mp above) different))).le
  | cons first name ih =>
      cases longer with
      | nil =>
          rcases smaller with wrong | ⟨wrong, -⟩
          · exact absurd wrong (List.not_lt_nil _)
          · cases wrong
      | cons second longer =>
          rcases smaller with below | ⟨same, below⟩
          · rcases List.cons_lt_cons_iff.mp below with before | ⟨rfl, later⟩
            · exact (List.cons_lt_cons_iff.mpr (.inl before)).le
            · apply List.cons_le_cons
              refine ih (List.not_mem_of_not_mem_cons absent) ?_ (.inl later)
              intro next rest shape
              exact plain next rest (congrArg (_ :: ·) shape)
          · obtain ⟨rfl, rfl⟩ := List.cons_eq_cons.mp same
            apply List.cons_le_cons
            refine ih (List.not_mem_of_not_mem_cons absent) ?_ (.inr ⟨rfl, below⟩)
            intro next rest shape
            exact plain next rest (congrArg (_ :: ·) shape)

theorem prefix_lt {next : Char} {rest : List Char} (name : List Char) :
    name < name ++ next :: rest := by
  induction name with
  | nil => exact List.nil_lt_cons next rest
  | cons first name ih => exact List.cons_lt_cons_iff.mpr (.inr ⟨rfl, ih⟩)

/-- A name that is continued with a smaller character comes after its continuation. -/
theorem join_lt {next : Char} {rest : List Char} (smaller : next < '=') :
    (name ++ next :: rest) ++ '=' :: other < name ++ '=' :: value := by
  induction name with
  | nil => exact List.cons_lt_cons_iff.mpr (.inl smaller)
  | cons first name ih => exact List.cons_lt_cons_iff.mpr (.inr ⟨rfl, ih⟩)

end Order

section Pairs

variable {left right : String × String}

theorem toList_joinPair (pair : String × String) :
    (joinPair pair).toList = pair.1.toList ++ '=' :: pair.2.toList := by
  have mark : "=".toList = ['='] := by simp
  unfold joinPair
  rw [String.toList_append, String.toList_append, mark, List.append_assoc, List.singleton_append]

theorem not_mem_sigv4 {mark : Char} (reserved : isUnreserved (UInt8.ofNat mark.toNat) = false)
    (other : mark ≠ '%') (input : String) : mark ∉ (Sigv4.encode input false).toList := by
  intro member
  rcases (Sigv4.encode_text input false).chars _ member with percent | kept | allowed
  · exact other percent
  · cases kept.2
  · rw [allowed] at reserved
    cases reserved

theorem joinPair_le (plain : ¬ ContinuedBy left.1 right.1)
    (smaller : toLex (encodedPair left) ≤ toLex (encodedPair right)) :
    joinPair (encodedPair left) ≤ joinPair (encodedPair right) := by
  rw [String.le_iff_toList_le, toList_joinPair, toList_joinPair]
  refine join_le (not_mem_sigv4 (by decide) (by decide) right.1) ?_ ?_
  · intro next rest shape below
    exact plain ⟨next, rest, shape, below⟩
  · rcases Prod.Lex.toLex_le_toLex.mp smaller with before | ⟨same, below⟩
    · exact .inl (String.lt_iff_toList_lt.mp before)
    · exact .inr ⟨congrArg String.toList same, String.le_iff_toList_le.mp below⟩

/-- A pair whose name is continued comes first by its name, and last as a text. -/
theorem joinPair_lt (continued : ContinuedBy left.1 right.1) :
    toLex (encodedPair left) < toLex (encodedPair right) ∧
      joinPair (encodedPair right) < joinPair (encodedPair left) := by
  obtain ⟨next, rest, shape, smaller⟩ := continued
  constructor
  · refine Prod.Lex.toLex_lt_toLex.mpr (.inl (String.lt_iff_toList_lt.mpr ?_))
    show (Sigv4.encode left.1 false).toList < (Sigv4.encode right.1 false).toList
    rw [shape]
    exact prefix_lt _
  · rw [String.lt_iff_toList_lt, toList_joinPair, toList_joinPair]
    show (Sigv4.encode right.1 false).toList ++ _ < (Sigv4.encode left.1 false).toList ++ _
    rw [shape]
    exact join_lt smaller

end Pairs

section Query

variable {pairs permuted : List (String × String)}

theorem canonicalQuery_perm (reordered : pairs.Perm permuted) :
    canonicalQuery permuted = canonicalQuery pairs := by
  have sorted : ∀ texts : List String, (texts.insertionSort (· ≤ ·)).Pairwise (· ≤ ·) :=
    List.pairwise_insertionSort _
  have same : (permuted.map fun pair => joinPair (encodedPair pair)).insertionSort (· ≤ ·) =
      (pairs.map fun pair => joinPair (encodedPair pair)).insertionSort (· ≤ ·) := by
    refine List.Perm.eq_of_pairwise' (sorted _) (sorted _) ?_
    refine (List.perm_insertionSort _ _).trans (.trans ?_ (List.perm_insertionSort _ _).symm)
    exact (reordered.map _).symm
  unfold canonicalQuery
  rw [same]

/-- The sorted texts are the sorted pairs when no name continues another one. -/
theorem sorted_eq_iff :
    (pairs.map fun pair => joinPair (encodedPair pair)).insertionSort (· ≤ ·) =
        ((pairs.map encodedPair).insertionSort fun left right => toLex left ≤ toLex right).map
          joinPair ↔
      ∀ left ∈ pairs, ∀ right ∈ pairs, ¬ ContinuedBy left.1 right.1 := by
  have ordered : ((pairs.map encodedPair).insertionSort
      fun left right => toLex left ≤ toLex right).Pairwise
        fun left right => toLex left ≤ toLex right :=
    List.pairwise_insertionSort _ _
  have members : ∀ pair ∈ pairs, encodedPair pair ∈
      (pairs.map encodedPair).insertionSort fun left right => toLex left ≤ toLex right :=
    fun pair member => (List.mem_insertionSort _).mpr (List.mem_map_of_mem member)
  constructor
  · intro same left member right other continued
    have texts : (((pairs.map encodedPair).insertionSort
        fun left right => toLex left ≤ toLex right).map joinPair).Pairwise (· ≤ ·) := by
      rw [← same]
      exact List.pairwise_insertionSort _ _
    rw [List.pairwise_map] at texts
    obtain ⟨before, after⟩ := joinPair_lt continued
    have kept : toLex (encodedPair left) < toLex (encodedPair right) →
        joinPair (encodedPair left) ≤ joinPair (encodedPair right) := by
      refine List.Pairwise.forall_of_forall_of_flip (R := fun left right : String × String =>
        toLex left < toLex right → joinPair left ≤ joinPair right) ?_ ?_ ?_
        (members left member) (members right other)
      · exact fun _ _ wrong => absurd wrong (lt_irrefl _)
      · exact texts.imp fun {left right} (below : joinPair left ≤ joinPair right)
          (_ : toLex left < toLex right) => below
      · exact ordered.imp fun {left right} (below : toLex left ≤ toLex right)
          (wrong : toLex right < toLex left) => absurd wrong below.not_gt
    exact absurd (kept before) after.not_ge
  · intro plain
    refine List.Perm.eq_of_pairwise' (List.pairwise_insertionSort _ _) ?_ ?_
    · rw [List.pairwise_map]
      refine ordered.imp_of_mem ?_
      intro left right member other smaller
      rw [List.mem_insertionSort] at member other
      obtain ⟨one, inside, rfl⟩ := List.mem_map.mp member
      obtain ⟨two, also, rfl⟩ := List.mem_map.mp other
      exact joinPair_le (plain one inside two also) smaller
    · refine (List.perm_insertionSort _ _).trans ?_
      have twice : (pairs.map fun pair => joinPair (encodedPair pair)) =
          (pairs.map encodedPair).map joinPair := by
        rw [List.map_map]
        rfl
      rw [twice]
      exact ((List.perm_insertionSort _ _).map joinPair).symm

theorem query_inj {texts others : List String} (size : texts.length = others.length)
    (absent : ∀ text ∈ texts, '&' ∉ text.toList)
    (missing : ∀ text ∈ others, '&' ∉ text.toList)
    (same : "&".intercalate texts = "&".intercalate others) : texts = others := by
  cases texts with
  | nil => exact (List.length_eq_zero_iff.mp size.symm).symm
  | cons first rest =>
      have occupied : others ≠ [] := by
        rintro rfl
        cases size
      have chars := congrArg String.toList same
      have mark : "&".toList = ['&'] := by simp
      rw [String.toList_intercalate, String.toList_intercalate, mark] at chars
      refine List.map_injective_iff.mpr (fun _ _ => String.toList_inj.mp)
        (Delimited.intercalate_inj ?_ ?_ (by simp) (by simpa using occupied) chars)
      · intro part member
        obtain ⟨text, among, rfl⟩ := List.mem_map.mp member
        exact absent text among
      · intro part member
        obtain ⟨text, among, rfl⟩ := List.mem_map.mp member
        exact missing text among

theorem ampersand_not_mem (pair : String × String) :
    '&' ∉ (joinPair (encodedPair pair)).toList := by
  have reserved : ∀ input, '&' ∉ (Sigv4.encode input false).toList :=
    not_mem_sigv4 (by decide) (by decide)
  rw [toList_joinPair, List.mem_append, List.mem_cons, not_or, not_or]
  exact ⟨reserved pair.1, by decide, reserved pair.2⟩

theorem canonicalQuery_eq_iff : canonicalQuery pairs = specifiedQuery pairs ↔
    ∀ left ∈ pairs, ∀ right ∈ pairs, ¬ ContinuedBy left.1 right.1 := by
  rw [← sorted_eq_iff]
  constructor
  · intro same
    refine query_inj (by simp) ?_ ?_ same
    · intro text member
      rw [List.mem_insertionSort] at member
      obtain ⟨pair, -, rfl⟩ := List.mem_map.mp member
      exact ampersand_not_mem pair
    · intro text member
      obtain ⟨encoded, among, rfl⟩ := List.mem_map.mp member
      rw [List.mem_insertionSort] at among
      obtain ⟨pair, -, rfl⟩ := List.mem_map.mp among
      exact ampersand_not_mem pair
  · intro same
    unfold canonicalQuery specifiedQuery
    rw [same]

/-- The canonical query string is the specified one, in whatever order the pairs are given,
exactly when no encoded name is continued by another with a character below the equals
sign. -/
theorem canonicalQuery_specified_iff (pairs : List (String × String)) :
    (canonicalQuery pairs = specifiedQuery pairs ∧
      ∀ permuted, pairs.Perm permuted → canonicalQuery permuted = canonicalQuery pairs) ↔
      ∀ left ∈ pairs, ∀ right ∈ pairs, ¬ ContinuedBy left.1 right.1 := by
  rw [canonicalQuery_eq_iff]
  exact and_iff_left fun permuted reordered => canonicalQuery_perm reordered

/-- A name that is continued by a digit comes second. -/
theorem numbered_out_of_order :
    canonicalQuery [("part", "1"), ("part2", "0")] = "part2=0&part=1" ∧
      specifiedQuery [("part", "1"), ("part2", "0")] = "part=1&part2=0" := by
  decide +kernel

end Query

end AgentTranscript
