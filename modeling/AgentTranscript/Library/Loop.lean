import Mathlib

/-!
Invariants of loops over lists, pure or in the `Except` monad. A loop that ends
without an error went through every element, so what each step preserves holds
of its final state; a loop whose steps all succeed ends without an error.
-/

set_option autoImplicit false

namespace Loop

universe u v w

variable {ε : Type u} {α : Type v} {σ : Type w}

/-- What every turn preserves, over the elements seen so far, holds at the end. -/
theorem foldl_invariant {step : σ → α → σ} {items : List α} {initial : σ}
    (invariant : List α → σ → Prop) (start : invariant [] initial)
    (next : ∀ seen item rest state, items = seen ++ item :: rest → invariant seen state →
      invariant (seen ++ [item]) (step state item)) :
    invariant items (items.foldl step initial) := by
  have loop : ∀ remaining seen state, items = seen ++ remaining → invariant seen state →
      invariant items (remaining.foldl step state) := by
    intro remaining
    induction remaining with
    | nil =>
        intro seen state split holds
        simpa [split] using holds
    | cons item remaining ih =>
        intro seen state split holds
        exact ih (seen ++ [item]) _ (by simpa using split)
          (next seen item remaining state split holds)
  exact loop items [] initial rfl start

theorem bind_ok {β γ : Type w} {source : Except ε β} {next : β → Except ε γ} {result : γ}
    (accepted : source >>= next = .ok result) :
    ∃ value, source = .ok value ∧ next value = .ok result := by
  cases source with
  | error error => cases accepted
  | ok value => exact ⟨value, rfl, accepted⟩

@[simp] theorem ok_bind {β γ : Type w} (value : β) (next : β → Except ε γ) :
    (Except.ok value >>= next) = next value := rfl

@[simp] theorem error_bind {β γ : Type w} (reason : ε) (next : β → Except ε γ) :
    (Except.error reason >>= next : Except ε γ) = .error reason := rfl

@[simp] theorem foldlM_nil (step : σ → α → Except ε σ) (state : σ) :
    [].foldlM step state = .ok state := rfl

theorem foldlM_cons (step : σ → α → Except ε σ) (state : σ) (item : α) (rest : List α) :
    (item :: rest).foldlM step state = step state item >>= rest.foldlM step := by
  rw [List.foldlM_cons]

theorem foldlM_ok_invariant {step : σ → α → Except ε σ} {items : List α} {initial final : σ}
    (finished : items.foldlM step initial = .ok final) (invariant : List α → σ → Prop)
    (start : invariant [] initial)
    (next : ∀ seen item state updated, item ∈ items → invariant seen state →
      step state item = .ok updated → invariant (seen ++ [item]) updated) :
    invariant items final := by
  have loop : ∀ remaining seen state, (∀ item ∈ remaining, item ∈ items) →
      invariant seen state → remaining.foldlM step state = .ok final →
      invariant (seen ++ remaining) final := by
    intro remaining
    induction remaining with
    | nil =>
        intro seen state _ holds finished
        cases finished
        simpa using holds
    | cons item remaining ih =>
        intro seen state included holds finished
        rw [foldlM_cons] at finished
        obtain ⟨updated, stepped, finished⟩ := bind_ok finished
        have preserved := next seen item state updated (included item (by simp)) holds stepped
        simpa using ih (seen ++ [item]) updated
          (fun other member => included other (by simp [member])) preserved finished
  exact loop items [] initial (fun _ member => member) start finished

/-- A loop succeeds when each step does, from every state its invariant admits. -/
theorem foldlM_total {step : σ → α → Except ε σ} {items : List α} {initial : σ}
    (invariant : σ → Prop) (start : invariant initial)
    (next : ∀ item ∈ items, ∀ state, invariant state →
      ∃ updated, step state item = .ok updated ∧ invariant updated) :
    ∃ final, items.foldlM step initial = .ok final ∧ invariant final := by
  induction items generalizing initial with
  | nil => exact ⟨initial, rfl, start⟩
  | cons item rest ih =>
      obtain ⟨updated, stepped, holds⟩ := next item (by simp) initial start
      obtain ⟨final, finished, preserved⟩ :=
        ih holds (fun other member => next other (by simp [member]))
      exact ⟨final, by simpa only [foldlM_cons, stepped, ok_bind] using finished, preserved⟩

theorem mapM_ok_iff {β : Type w} {check : α → Except ε β} {view : α → β}
    {accepts : α → Prop} (ok : ∀ item, accepts item → check item = .ok (view item))
    (error : ∀ item, ¬ accepts item → ∃ reason, check item = .error reason)
    {items : List α} {results : List β} :
    items.mapM check = .ok results ↔
      (∀ item ∈ items, accepts item) ∧ results = items.map view := by
  induction items generalizing results with
  | nil => simp [pure, Except.pure, eq_comm]
  | cons item rest ih =>
      rw [List.mapM_cons]
      by_cases accepted : accepts item
      · simp only [ok item accepted, ok_bind, List.forall_mem_cons, accepted, true_and,
          List.map_cons]
        constructor
        · intro finished
          obtain ⟨tail, mapped, shape⟩ := bind_ok finished
          obtain ⟨all, rfl⟩ := ih.mp mapped
          cases shape
          exact ⟨all, rfl⟩
        · intro given
          obtain ⟨all, shape⟩ := given
          have mapped := ih.mpr ⟨all, rfl⟩
          simp [mapped, shape, pure, Except.pure]
      · obtain ⟨reason, failed⟩ := error item accepted
        constructor
        · intro finished
          rw [failed] at finished
          cases finished
        · intro given
          obtain ⟨all, _⟩ := given
          exact absurd (all item (by simp)) accepted

theorem mapM_cons_ok {β : Type w} {check : α → Except ε β} {item : α} {items : List α}
    {results : List β} (mapped : (item :: items).mapM check = .ok results) :
    ∃ first rest, check item = .ok first ∧ items.mapM check = .ok rest ∧
      results = first :: rest := by
  rw [List.mapM_cons] at mapped
  obtain ⟨first, checked, mapped⟩ := bind_ok mapped
  obtain ⟨rest, recursive, shape⟩ := bind_ok mapped
  cases shape
  exact ⟨first, rest, checked, recursive, rfl⟩

theorem mapM_total {β : Type w} {check : α → Except ε β} {items : List α}
    (total : ∀ item ∈ items, ∃ result, check item = .ok result) :
    ∃ results, items.mapM check = .ok results := by
  induction items with
  | nil => exact ⟨[], rfl⟩
  | cons item rest ih =>
      obtain ⟨first, checked⟩ := total item (by simp)
      obtain ⟨results, mapped⟩ := ih fun other member => total other (by simp [member])
      exact ⟨first :: results, by rw [List.mapM_cons, checked, ok_bind, mapped]; rfl⟩

theorem mapM_congr {β : Type w} {check other : α → Except ε β} {items : List α}
    (same : ∀ item ∈ items, check item = other item) : items.mapM check = items.mapM other := by
  induction items with
  | nil => rfl
  | cons item rest ih =>
      rw [List.mapM_cons, List.mapM_cons, same item List.mem_cons_self,
        ih fun later member => same later (List.mem_cons_of_mem item member)]

theorem mem_of_mapM_ok {β : Type w} {check : α → Except ε β} {items : List α}
    {results : List β} (mapped : items.mapM check = .ok results) {result : β} :
    result ∈ results ↔ ∃ item ∈ items, check item = .ok result := by
  induction items generalizing results with
  | nil =>
      cases mapped
      simp
  | cons item rest ih =>
      obtain ⟨first, others, checked, recursive, rfl⟩ := mapM_cons_ok mapped
      simp [ih recursive, checked, eq_comm]

theorem mem_of_mapM_item {β : Type w} {check : α → Except ε β} {items : List α}
    {results : List β} (mapped : items.mapM check = .ok results) {item : α}
    (member : item ∈ items) : ∃ result ∈ results, check item = .ok result := by
  induction items generalizing results with
  | nil => cases member
  | cons head tail ih =>
      obtain ⟨first, others, checked, recursive, rfl⟩ := mapM_cons_ok mapped
      cases member with
      | head => exact ⟨first, List.mem_cons_self, checked⟩
      | tail _ later =>
          obtain ⟨result, present, made⟩ := ih recursive later
          exact ⟨result, List.mem_cons_of_mem first present, made⟩

/-- Lists with the same results are the same, if no two of their items have one result. -/
theorem mapM_inj {β : Type w} {check : α → Except ε β} {items others : List α} {results : List β}
    (apart : ∀ item ∈ items, ∀ other ∈ others, check item = check other → item = other)
    (mapped : items.mapM check = .ok results) (also : others.mapM check = .ok results) :
    items = others := by
  induction items generalizing others results with
  | nil =>
      cases mapped
      cases others with
      | nil => rfl
      | cons other rest =>
          obtain ⟨_, _, _, _, shape⟩ := mapM_cons_ok also
          cases shape
  | cons item items ih =>
      obtain ⟨first, later, checked, recursive, rfl⟩ := mapM_cons_ok mapped
      cases others with
      | nil => cases also
      | cons other rest =>
          obtain ⟨second, remaining, found, continued, shape⟩ := mapM_cons_ok also
          cases shape
          rw [apart item List.mem_cons_self other List.mem_cons_self (checked.trans found.symm),
            ih (fun one member two present => apart one (List.mem_cons_of_mem item member) two
              (List.mem_cons_of_mem other present)) recursive continued]

theorem map_of_mapM_ok {β : Type w} {γ : Type*} {check : α → Except ε β} {items : List α}
    {results : List β} (mapped : items.mapM check = .ok results) {origin : α → γ}
    {view : β → γ} (same : ∀ item result, check item = .ok result → view result = origin item) :
    results.map view = items.map origin := by
  induction items generalizing results with
  | nil =>
      cases mapped
      rfl
  | cons item rest ih =>
      obtain ⟨first, others, checked, recursive, rfl⟩ := mapM_cons_ok mapped
      rw [List.map_cons, List.map_cons, ih recursive, same item first checked]

theorem forM_ok_iff {check : α → Except ε PUnit} {items : List α} :
    items.forM check = .ok ⟨⟩ ↔ ∀ item ∈ items, check item = .ok ⟨⟩ := by
  induction items with
  | nil => simp [pure, Except.pure]
  | cons item rest ih =>
      rw [List.forM_eq_forM, List.forM_cons, ← List.forM_eq_forM, List.forall_mem_cons, ← ih]
      cases checked : check item with
      | error reason => simp
      | ok value => simp

end Loop
