import Mathlib

/-!
Choosing the greatest element of a list under a key, with detection of ties.

Every element has a key in a linear order and a body. The elements of greatest
key are the top of the list; the list is tied when its top carries two bodies.
A left-to-right scan that remembers only the best element so far and one flag
finds the first top element and decides the tie.
-/

set_option autoImplicit false

namespace Ranking

universe u v w

variable {α : Type u} {κ : Type v} {η : Type w} [LinearOrder κ]

section Top

variable (key : α → κ) (body : α → η)

def IsTopOf (items : List α) (top : α) : Prop :=
  top ∈ items ∧ ∀ item ∈ items, key item ≤ key top

def topBodies (items : List α) : Set η :=
  {value | ∃ top, IsTopOf key items top ∧ body top = value}

/-- The top of the list carries two different bodies. -/
def Tied (items : List α) : Prop :=
  (topBodies key body items).Nontrivial

/-- `first` is a top element and no earlier element is. -/
def IsFirstTop (items : List α) (first : α) : Prop :=
  ∃ before after, items = before ++ first :: after ∧
    (∀ item ∈ before, key item < key first) ∧ ∀ item ∈ after, key item ≤ key first

end Top

variable {key : α → κ} {body : α → η} {items left right : List α}

@[simp] theorem mem_topBodies {value : η} :
    value ∈ topBodies key body items ↔ ∃ top, IsTopOf key items top ∧ body top = value := Iff.rfl

@[simp] theorem isTopOf_singleton {item top : α} : IsTopOf key [item] top ↔ top = item := by
  constructor
  · exact fun found => List.mem_singleton.mp found.1
  · rintro rfl
    exact ⟨by simp, by simp⟩

@[simp] theorem topBodies_singleton {item : α} : topBodies key body [item] = {body item} := by
  ext value
  simp [eq_comm]

@[simp] theorem topBodies_nil : topBodies key body [] = ∅ := by
  simp [topBodies, IsTopOf]

theorem IsFirstTop.isTopOf {first : α} (chosen : IsFirstTop key items first) :
    IsTopOf key items first := by
  obtain ⟨before, after, rfl, below, bounded⟩ := chosen
  refine ⟨by simp, ?_⟩
  intro item member
  rcases List.mem_append.mp member with earlier | later
  · exact (below item earlier).le
  · rcases List.mem_cons.mp later with rfl | later
    · exact le_rfl
    · exact bounded item later

theorem IsTopOf.key_eq {first second : α} (one : IsTopOf key items first)
    (other : IsTopOf key items second) : key first = key second :=
  le_antisymm (other.2 first one.1) (one.2 second other.1)

theorem isTopOf_of_key_le {top item : α} (found : IsTopOf key items top)
    (member : item ∈ items) (above : key top ≤ key item) : IsTopOf key items item :=
  ⟨member, fun other included => (found.2 other included).trans above⟩

theorem exists_isTopOf (key : α → κ) (nonempty : items ≠ []) : ∃ top, IsTopOf key items top := by
  induction items with
  | nil => exact absurd rfl nonempty
  | cons head tail ih =>
      rcases tail.eq_nil_or_concat with rfl | ⟨_, _, shape⟩
      · exact ⟨head, by simp, by simp⟩
      · obtain ⟨top, member, bounded⟩ := ih (by simp [shape])
        rcases le_total (key head) (key top) with below | above
        · refine ⟨top, List.mem_cons_of_mem _ member, ?_⟩
          intro item included
          rcases List.mem_cons.mp included with rfl | included
          · exact below
          · exact bounded item included
        · refine ⟨head, by simp, ?_⟩
          intro item included
          rcases List.mem_cons.mp included with rfl | included
          · exact le_rfl
          · exact (bounded item included).trans above

theorem isTopOf_congr (same : ∀ item, item ∈ left ↔ item ∈ right) {top : α} :
    IsTopOf key left top ↔ IsTopOf key right top := by
  simp only [IsTopOf, same]

theorem topBodies_congr (same : ∀ item, item ∈ left ↔ item ∈ right) :
    topBodies key body left = topBodies key body right := by
  ext value
  simp only [mem_topBodies, isTopOf_congr same]

theorem topBodies_perm (reordered : left.Perm right) :
    topBodies key body left = topBodies key body right :=
  topBodies_congr fun _ => reordered.mem_iff

theorem topBodies_nonempty (nonempty : items ≠ []) : (topBodies key body items).Nonempty := by
  obtain ⟨top, found⟩ := exists_isTopOf key nonempty
  exact ⟨body top, top, found, rfl⟩

theorem isTopOf_of_selected {kept : List α} (selected : ∀ item ∈ kept, IsTopOf key items item)
    {top : α} : IsTopOf key kept top ↔ top ∈ kept := by
  constructor
  · exact fun found => found.1
  · exact fun member => ⟨member, fun item included =>
      (selected item included).key_eq (selected top member) |>.le⟩

theorem topBodies_of_selected {kept : List α} (selected : ∀ item ∈ kept, IsTopOf key items item)
    (covers : ∀ item, IsTopOf key items item → ∃ other ∈ kept, body other = body item) :
    topBodies key body kept = topBodies key body items := by
  ext value
  simp only [mem_topBodies, isTopOf_of_selected selected]
  constructor
  · intro given
    obtain ⟨top, member, same⟩ := given
    exact ⟨top, selected top member, same⟩
  · intro given
    obtain ⟨top, found, same⟩ := given
    obtain ⟨other, member, alike⟩ := covers top found
    exact ⟨other, member, alike.trans same⟩

theorem tied_iff_of_isTopOf {top : α} (found : IsTopOf key items top) :
    Tied key body items ↔ ∃ other, IsTopOf key items other ∧ body other ≠ body top := by
  constructor
  · intro given
    obtain ⟨_, ⟨first, firstTop, rfl⟩, _, ⟨second, secondTop, rfl⟩, different⟩ := given
    by_cases same : body first = body top
    · exact ⟨second, secondTop, fun equal => different (same.trans equal.symm)⟩
    · exact ⟨first, firstTop, same⟩
  · intro given
    obtain ⟨other, otherTop, different⟩ := given
    exact ⟨body other, ⟨other, otherTop, rfl⟩, body top, ⟨top, found, rfl⟩, different⟩

theorem topBodies_eq_singleton {top : α} (found : IsTopOf key items top)
    (settled : ¬ Tied key body items) : topBodies key body items = {body top} := by
  rw [Tied, Set.not_nontrivial_iff] at settled
  exact settled.eq_singleton_of_mem ⟨top, found, rfl⟩

section Positions

variable {β : Type w}

theorem isTopOf_map {source : List β} {view : β → α} {top : α} :
    IsTopOf key (source.map view) top ↔
      ∃ origin, IsTopOf (fun item => key (view item)) source origin ∧ view origin = top := by
  constructor
  · intro found
    obtain ⟨origin, member, shape⟩ := List.mem_map.mp found.1
    refine ⟨origin, ⟨member, ?_⟩, shape⟩
    intro item included
    simpa [shape] using found.2 (view item) (List.mem_map_of_mem included)
  · intro given
    obtain ⟨origin, found, shape⟩ := given
    refine ⟨shape ▸ List.mem_map_of_mem found.1, ?_⟩
    intro item member
    obtain ⟨other, included, rfl⟩ := List.mem_map.mp member
    simpa [shape] using found.2 other included

theorem topBodies_map {source : List β} {view : β → α} :
    topBodies key body (source.map view) =
      topBodies (fun item => key (view item)) (fun item => body (view item)) source := by
  ext value
  simp only [mem_topBodies, isTopOf_map]
  constructor
  · intro given
    obtain ⟨_, ⟨origin, found, rfl⟩, same⟩ := given
    exact ⟨origin, found, same⟩
  · intro given
    obtain ⟨origin, found, same⟩ := given
    exact ⟨view origin, ⟨origin, found, rfl⟩, same⟩

def IsFirstTopAt (key : α → κ) (items : List α) (position : Nat) (first : α) : Prop :=
  ∃ before after, items = before ++ first :: after ∧ before.length = position ∧
    (∀ item ∈ before, key item < key first) ∧ ∀ item ∈ after, key item ≤ key first

theorem isFirstTopAt_of_zipIdx {entry : α × Nat}
    (chosen : IsFirstTop (fun item : α × Nat => key item.1) items.zipIdx entry) :
    IsFirstTopAt key items entry.2 entry.1 := by
  obtain ⟨before, after, shape, below, bounded⟩ := chosen
  have values : items = before.map Prod.fst ++ entry.1 :: after.map Prod.fst := by
    have projected := congrArg (List.map Prod.fst) shape
    simpa using projected
  have position : before.length = entry.2 := by
    have found : items.zipIdx[before.length]? = some entry := by simp [shape]
    simp only [List.getElem?_zipIdx, Option.map_eq_some_iff] at found
    obtain ⟨value, _, same⟩ := found
    simpa using congrArg Prod.snd same
  refine ⟨before.map Prod.fst, after.map Prod.fst, values, by simpa using position, ?_, ?_⟩
  · intro item member
    obtain ⟨other, included, rfl⟩ := List.mem_map.mp member
    exact below other included
  · intro item member
    obtain ⟨other, included, rfl⟩ := List.mem_map.mp member
    exact bounded other included

theorem isFirstTopAt_of_map {source : List β} {view : β → α} {position : Nat} {first : α}
    (chosen : IsFirstTopAt key (source.map view) position first) :
    ∃ origin, IsFirstTopAt (fun item => key (view item)) source position origin ∧
      view origin = first := by
  obtain ⟨before, after, shape, atPosition, below, bounded⟩ := chosen
  obtain ⟨front, back, rfl, rfl, others⟩ := List.map_eq_append_iff.mp shape
  obtain ⟨origin, rest, rfl, rfl, rfl⟩ := List.map_eq_cons_iff.mp others
  refine ⟨origin, ⟨front, rest, rfl, by simpa using atPosition, ?_, ?_⟩, rfl⟩
  · exact fun item member => below (view item) (List.mem_map_of_mem member)
  · exact fun item member => bounded (view item) (List.mem_map_of_mem member)

theorem IsFirstTopAt.isFirstTop {position : Nat} {first : α}
    (chosen : IsFirstTopAt key items position first) : IsFirstTop key items first := by
  obtain ⟨before, after, shape, _, below, bounded⟩ := chosen
  exact ⟨before, after, shape, below, bounded⟩

theorem IsFirstTopAt.getElem? {position : Nat} {first : α}
    (chosen : IsFirstTopAt key items position first) : items[position]? = some first := by
  obtain ⟨before, after, rfl, rfl, _, _⟩ := chosen
  simp

theorem IsFirstTopAt.position_le {one other : Nat} {first second : α}
    (chosen : IsFirstTopAt key items one first) (again : IsFirstTopAt key items other second) :
    one ≤ other := by
  have same := chosen.isFirstTop.isTopOf.key_eq again.isFirstTop.isTopOf
  have found := again.getElem?
  obtain ⟨before, after, rfl, rfl, below, -⟩ := chosen
  by_contra early
  rw [List.getElem?_append_left (not_le.mp early)] at found
  exact (below second (List.mem_of_getElem? found)).ne same.symm

theorem IsFirstTopAt.position_unique {one other : Nat} {first second : α}
    (chosen : IsFirstTopAt key items one first) (again : IsFirstTopAt key items other second) :
    one = other :=
  le_antisymm (chosen.position_le again) (again.position_le chosen)

end Positions

section Append

theorem isTopOf_append_left {leftTop rightTop top : α} (leftFound : IsTopOf key left leftTop)
    (rightFound : IsTopOf key right rightTop) (newer : key rightTop < key leftTop) :
    IsTopOf key (left ++ right) top ↔ IsTopOf key left top := by
  constructor
  · intro given
    obtain ⟨member, bounded⟩ := given
    have above : key leftTop ≤ key top := bounded leftTop (by simp [leftFound.1])
    rcases List.mem_append.mp member with member | member
    · exact isTopOf_of_key_le leftFound member above
    · exact absurd (newer.trans_le above) (rightFound.2 top member).not_gt
  · intro found
    refine ⟨List.mem_append_left _ found.1, ?_⟩
    intro item member
    rcases List.mem_append.mp member with member | member
    · exact found.2 item member
    · exact (rightFound.2 item member).trans
        (newer.le.trans_eq (leftFound.key_eq found))

theorem isTopOf_append_both {leftTop rightTop top : α} (leftFound : IsTopOf key left leftTop)
    (rightFound : IsTopOf key right rightTop) (same : key leftTop = key rightTop) :
    IsTopOf key (left ++ right) top ↔ IsTopOf key left top ∨ IsTopOf key right top := by
  constructor
  · intro given
    obtain ⟨member, bounded⟩ := given
    rcases List.mem_append.mp member with member | member
    · exact .inl (isTopOf_of_key_le leftFound member (bounded leftTop (by simp [leftFound.1])))
    · exact .inr (isTopOf_of_key_le rightFound member (bounded rightTop (by simp [rightFound.1])))
  · rintro (found | found)
    · refine ⟨List.mem_append_left _ found.1, ?_⟩
      intro item member
      rcases List.mem_append.mp member with member | member
      · exact found.2 item member
      · exact (rightFound.2 item member).trans (same.symm.trans (leftFound.key_eq found)).le
    · refine ⟨List.mem_append_right _ found.1, ?_⟩
      intro item member
      rcases List.mem_append.mp member with member | member
      · exact (leftFound.2 item member).trans (same.trans (rightFound.key_eq found)).le
      · exact found.2 item member

theorem topBodies_append_left {leftTop rightTop : α} (leftFound : IsTopOf key left leftTop)
    (rightFound : IsTopOf key right rightTop) (newer : key rightTop < key leftTop) :
    topBodies key body (left ++ right) = topBodies key body left := by
  ext value
  simp only [mem_topBodies, isTopOf_append_left leftFound rightFound newer]

theorem topBodies_append_right {leftTop rightTop : α} (leftFound : IsTopOf key left leftTop)
    (rightFound : IsTopOf key right rightTop) (newer : key leftTop < key rightTop) :
    topBodies key body (left ++ right) = topBodies key body right := by
  rw [topBodies_perm List.perm_append_comm]
  exact topBodies_append_left rightFound leftFound newer

theorem topBodies_append_both {leftTop rightTop : α} (leftFound : IsTopOf key left leftTop)
    (rightFound : IsTopOf key right rightTop) (same : key leftTop = key rightTop) :
    topBodies key body (left ++ right) = topBodies key body left ∪ topBodies key body right := by
  ext value
  simp only [mem_topBodies, isTopOf_append_both leftFound rightFound same,
    Set.mem_union, or_and_right, exists_or]

end Append

section Scan

variable [DecidableEq η]

/-- One comparison: a strictly greater element replaces the best and clears the
flag; an equal key with another body sets it. -/
def scanStep (key : α → κ) (body : α → η) (state : α × Bool) (item : α) : α × Bool :=
  if key item < key state.1 then state
  else if key state.1 < key item then (item, false)
  else if body state.1 = body item then state
  else (state.1, true)

def scan (key : α → κ) (body : α → η) (first : α) (rest : List α) : α × Bool :=
  rest.foldl (scanStep key body) (first, false)

/-- What the scan knows after the elements `seen`. -/
structure Standing (key : α → κ) (body : α → η) (seen : List α) (state : α × Bool) : Prop where
  best : IsFirstTop key seen state.1
  tied : state.2 = true ↔ Tied key body seen

private theorem isTopOf_snoc_of_lt {seen : List α} {best item top : α} (found : IsTopOf key seen best)
    (below : key item < key best) :
    IsTopOf key (seen ++ [item]) top ↔ IsTopOf key seen top :=
  isTopOf_append_left found (isTopOf_singleton.mpr rfl) below

private theorem isTopOf_snoc_of_eq {seen : List α} {best item top : α} (found : IsTopOf key seen best)
    (same : key best = key item) :
    IsTopOf key (seen ++ [item]) top ↔ IsTopOf key seen top ∨ top = item := by
  rw [isTopOf_append_both found (isTopOf_singleton.mpr rfl) same, isTopOf_singleton]

private theorem isFirstTop_snoc {seen : List α} {best item : α} (found : IsFirstTop key seen best)
    (below : key item ≤ key best) : IsFirstTop key (seen ++ [item]) best := by
  obtain ⟨before, after, rfl, earlier, later⟩ := found
  refine ⟨before, after ++ [item], by simp, earlier, ?_⟩
  intro other member
  rcases List.mem_append.mp member with member | member
  · exact later other member
  · simpa using List.mem_singleton.mp member ▸ below

theorem Standing.step {seen : List α} {state : α × Bool} (standing : Standing key body seen state)
    (item : α) : Standing key body (seen ++ [item]) (scanStep key body state item) := by
  have found := standing.best.isTopOf
  unfold scanStep
  split_ifs with below above same
  · refine ⟨isFirstTop_snoc standing.best below.le, ?_⟩
    rw [standing.tied]
    simp only [Tied, topBodies, isTopOf_snoc_of_lt found below]
  · refine ⟨⟨seen, [], by simp, ?_, by simp⟩, ?_⟩
    · intro other member
      exact (found.2 other member).trans_lt above
    · rw [Tied, topBodies_append_right found (isTopOf_singleton.mpr rfl) above]
      simp
  · have equal : key state.1 = key item := le_antisymm (not_lt.mp below) (not_lt.mp above)
    refine ⟨isFirstTop_snoc standing.best equal.ge, ?_⟩
    rw [standing.tied, tied_iff_of_isTopOf found,
      tied_iff_of_isTopOf ((isTopOf_snoc_of_eq found equal).mpr (.inl found))]
    simp only [isTopOf_snoc_of_eq found equal]
    constructor
    · intro given
      obtain ⟨other, otherTop, different⟩ := given
      exact ⟨other, .inl otherTop, different⟩
    · intro given
      rcases given with ⟨other, otherTop | rfl, different⟩
      · exact ⟨other, otherTop, different⟩
      · exact absurd same.symm different
  · have equal : key state.1 = key item := le_antisymm (not_lt.mp below) (not_lt.mp above)
    refine ⟨isFirstTop_snoc standing.best equal.ge, ?_⟩
    simp only [true_iff]
    rw [tied_iff_of_isTopOf ((isTopOf_snoc_of_eq found equal).mpr (.inl found))]
    exact ⟨item, (isTopOf_snoc_of_eq found equal).mpr (.inr rfl), fun equal => same equal.symm⟩

/-- The scan finds the first top element and decides the tie. -/
theorem scan_standing (key : α → κ) (body : α → η) (first : α) (rest : List α) :
    Standing key body (first :: rest) (scan key body first rest) := by
  have loop : ∀ (remaining seen : List α) (state : α × Bool), Standing key body seen state →
      Standing key body (seen ++ remaining) (remaining.foldl (scanStep key body) state) := by
    intro remaining
    induction remaining with
    | nil => intro seen state standing; simpa using standing
    | cons item remaining ih =>
        intro seen state standing
        simpa using ih (seen ++ [item]) _ (standing.step item)
  have start : Standing key body [first] (first, false) := by
    exact ⟨⟨[], [], by simp, by simp, by simp⟩, by simp [Tied]⟩
  exact loop rest [first] (first, false) start

end Scan

section Sorted

/-- The items by their keys, items of one key in the order they had. -/
structure SortedBy (key : α → κ) (items sorted : List α) : Prop where
  perm : sorted.Perm items
  ordered : sorted.Pairwise fun left right => key left ≤ key right
  stable : ∀ value, (sorted.filter fun item => key item = value) =
    items.filter fun item => key item = value

theorem total_key (key : α → κ) : Std.Total fun left right => key left ≤ key right :=
  ⟨fun left right => le_total (key left) (key right)⟩

theorem isTrans_key (key : α → κ) : IsTrans α fun left right => key left ≤ key right :=
  ⟨fun _ _ _ => le_trans⟩

/-- Sorting keeps the order of the items that may stand either way. -/
theorem filter_insertionSort (r : α → α → Prop) [DecidableRel r] [Std.Total r] [IsTrans α r]
    (chosen : α → Bool) (alike : ∀ left right, chosen left = true → chosen right = true →
      r left right) (items : List α) :
    (items.insertionSort r).filter chosen = items.filter chosen := by
  have ordered : (items.filter chosen).Pairwise r :=
    List.pairwise_of_forall_mem_list fun left member right other =>
      alike left right (List.mem_filter.mp member).2 (List.mem_filter.mp other).2
  have inside := (List.sublist_insertionSort ordered List.filter_sublist).filter chosen
  rw [List.filter_filter, funext fun item => Bool.and_self (chosen item)] at inside
  have length := ((List.perm_insertionSort r items).filter chosen).length_eq
  exact (inside.eq_of_length length.symm).symm

theorem sortedBy_insertionSort (key : α → κ) (items : List α) :
    SortedBy key items (items.insertionSort fun left right => key left ≤ key right) := by
  have total := total_key key
  have transitive := isTrans_key key
  refine ⟨List.perm_insertionSort _ items, List.pairwise_insertionSort _ items, ?_⟩
  intro value
  refine filter_insertionSort _ _ ?_ items
  intro left right one other
  rw [decide_eq_true_iff] at one other
  exact (one.trans other.symm).le

end Sorted

end Ranking
