import Mathlib

/-!
A cache in front of a source that may change. A settled answer is kept for good; any other
one is kept until it expires. The log holds the questions that reached the source.
-/

set_option autoImplicit false

namespace ExpiringCache

universe u v

variable {κ : Type u} {α : Type v}

structure Entry (α : Type v) where
  answer : α
  askedAt : Int

structure Question (κ : Type u) (α : Type v) where
  key : κ
  entry : Entry α

/-- Which answers are kept for good, and how long the others are. -/
structure Policy (α : Type v) where
  settled : α → Bool
  lifetime : Int

def Policy.fresh (policy : Policy α) (now : Int) (entry : Entry α) : Bool :=
  policy.settled entry.answer || now - entry.askedAt < policy.lifetime

structure Cache (κ : Type u) (α : Type v) where
  entries : κ → Option (Entry α)
  log : List (Question κ α)

variable [DecidableEq κ] (policy : Policy α)

def Cache.known (cache : Cache κ α) (now : Int) (key : κ) : Option (Entry α) :=
  (cache.entries key).filter (policy.fresh now)

def Cache.answer (cache : Cache κ α) (now : Int) (source : κ → α) (key : κ) : α :=
  ((cache.known policy now key).map (·.answer)).getD (source key)

def Cache.ask (cache : Cache κ α) (now : Int) (answer : α) (key : κ) : Cache κ α where
  entries := Function.update cache.entries key (some ⟨answer, now⟩)
  log := cache.log ++ [⟨key, ⟨answer, now⟩⟩]

def Cache.consult (cache : Cache κ α) (now : Int) (source : κ → α) (key : κ) : Cache κ α :=
  if (cache.known policy now key).isSome then cache else cache.ask now (source key) key

/-- Several consultations at one time. -/
def Cache.consultAll (cache : Cache κ α) (now : Int) (source : κ → α) (keys : List κ) :
    Cache κ α :=
  keys.foldl (fun cache key => cache.consult policy now source key) cache

/-- The last question about a key. -/
def lastEntry (log : List (Question κ α)) (key : κ) : Option (Entry α) :=
  ((log.filter (·.key = key)).getLast?).map (·.entry)

/-- A question is asked again only once its answer has expired. -/
def Policy.Spaced (earlier later : Question κ α) : Prop :=
  earlier.key = later.key →
    policy.settled earlier.entry.answer = false ∧
      policy.lifetime ≤ later.entry.askedAt - earlier.entry.askedAt

/-- What a cache and its log are worth, from the entries it started with. -/
structure Kept (initial : κ → Option (Entry α)) (cache : Cache κ α) : Prop where
  spaced : cache.log.Pairwise policy.Spaced
  entries : ∀ key, cache.entries key = (lastEntry cache.log key).or (initial key)

variable {policy} {cache : Cache κ α} {initial : κ → Option (Entry α)}
  {log : List (Question κ α)} {question : Question κ α}

theorem lastEntry_append (log : List (Question κ α)) (question : Question κ α) (key : κ) :
    lastEntry (log ++ [question]) key =
      if question.key = key then some question.entry else lastEntry log key := by
  unfold lastEntry
  rw [List.filter_append, List.filter_singleton]
  by_cases same : question.key = key
  · simp [same]
  · simp [same]

/-- Of several questions about one key, each is the last one or was asked well before it. -/
theorem spaced_lastEntry (spaced : log.Pairwise policy.Spaced) (member : question ∈ log) :
    ∃ last, lastEntry log question.key = some last ∧
      (question.entry = last ∨ policy.settled question.entry.answer = false ∧
        policy.lifetime ≤ last.askedAt - question.entry.askedAt) := by
  have among : question ∈ log.filter (·.key = question.key) :=
    List.mem_filter.mpr ⟨member, by simp⟩
  have ordered := spaced.filter (·.key = question.key)
  have named : ∀ other ∈ log.filter (·.key = question.key), other.key = question.key := by
    intro other listed
    simpa using (List.mem_filter.mp listed).2
  unfold lastEntry
  revert among ordered named
  generalize log.filter (·.key = question.key) = asked
  intro among ordered named
  cases asked using List.reverseRecOn with
  | nil => cases among
  | append_singleton before last =>
      refine ⟨last.entry, by simp, ?_⟩
      rcases List.mem_append.mp among with early | final
      · refine .inr ((List.pairwise_append.mp ordered).2.2 question early last
          List.mem_cons_self ?_)
        exact (named last (by simp)).symm
      · cases List.mem_singleton.mp final
        exact .inl rfl

theorem Kept.initially (entries : κ → Option (Entry α)) : Kept policy entries ⟨entries, []⟩ where
  spaced := .nil
  entries _ := rfl

theorem Kept.consult (kept : Kept policy initial cache) (positive : 0 ≤ policy.lifetime) (now : Int)
    (source : κ → α) (key : κ) : Kept policy initial (cache.consult policy now source key) := by
  unfold Cache.consult
  split
  · exact kept
  · rename_i unknown
    constructor
    · refine List.pairwise_append.mpr ⟨kept.spaced, List.pairwise_singleton _ _, ?_⟩
      intro earlier member later last same
      cases List.mem_singleton.mp last
      cases same
      obtain ⟨entry, found, before⟩ := spaced_lastEntry kept.spaced member
      -- The entry of the last question is in the cache, and has expired.
      have stored : cache.entries earlier.key = some entry := by
        rw [kept.entries, found, Option.some_or]
      have stale : policy.fresh now entry = false := by
        unfold Cache.known at unknown
        rw [stored] at unknown
        simpa [Option.filter_some] using unknown
      unfold Policy.fresh at stale
      rw [Bool.or_eq_false_iff, decide_eq_false_iff_not] at stale
      rcases before with rfl | before
      · refine ⟨stale.1, ?_⟩
        dsimp only
        omega
      · refine ⟨before.1, ?_⟩
        dsimp only
        omega
    · intro other
      dsimp only [Cache.ask]
      rw [lastEntry_append, Function.update_apply]
      dsimp only
      by_cases same : other = key
      · rw [if_pos same, if_pos same.symm, Option.some_or]
      · rw [if_neg same, if_neg (Ne.symm same)]
        exact kept.entries other

theorem Kept.consultAll (kept : Kept policy initial cache) (positive : 0 ≤ policy.lifetime)
    (now : Int) (source : κ → α) (keys : List κ) :
    Kept policy initial (cache.consultAll policy now source keys) := by
  induction keys generalizing cache with
  | nil => exact kept
  | cons key rest ih => exact ih (kept.consult positive now source key)

theorem mem_log_consultAll {now : Int} {source : κ → α} {keys : List κ}
    (member : question ∈ (cache.consultAll policy now source keys).log) :
    question ∈ cache.log ∨ question.entry = ⟨source question.key, now⟩ := by
  induction keys generalizing cache with
  | nil => exact .inl member
  | cons key rest ih =>
      rcases ih member with earlier | asked
      · dsimp only [Cache.consult] at earlier
        split at earlier
        · exact .inl earlier
        · rcases List.mem_append.mp earlier with known | last
          · exact .inl known
          · cases List.mem_singleton.mp last
            exact .inr rfl
      · exact .inr asked

/-- What is answered is the last answer of the source, as long as it is fresh. -/
theorem Kept.answer (kept : Kept policy initial cache) (now : Int) (source : κ → α) (key : κ) :
    cache.answer policy now source key =
      ((((lastEntry cache.log key).or (initial key)).filter (policy.fresh now)).map (·.answer)).getD
        (source key) := by
  unfold Cache.answer Cache.known
  rw [kept.entries]

end ExpiringCache
