import AgentTranscript.Local.Loads

/-!
What the scan of one site leaves alone. Which records it may drop is decided by
the text of their sources, which sources belong to the site by the components of
their paths, or by the path of a database and a newline.
-/

set_option autoImplicit false

namespace AgentTranscript

section Frame

variable [HarnessNames] [DocumentCodec] {machine : Machine} {store : LocalStore} {site : Site}
  {harness : HarnessId} {source : String}

theorem recordOf_scanSite_unowned (foreign : site.owns source = false) :
    (store.scanSite machine site).recordOf harness source =
      if store.scans machine site = true ∧ site.Covers harness source then none
      else store.recordOf harness source := by
  have unread : (harness, source) ∉ store.siteLoads machine site := by
    intro read
    rw [(owns_enumerated (siteLoads_enumerated read).2).1] at foreign
    cases foreign
  have unlisted : source ∉ site.enumerated machine := by
    intro listed
    rw [(owns_enumerated listed).1] at foreign
    cases foreign
  rw [recordOf_scanSite (.inr unread)]
  simp only [unlisted, not_false_eq_true, and_true]

/-- The scan of a site leaves the records of foreign sources as they were exactly when
none of its harness starts with the text of its path. -/
theorem scanSite_frame_iff (machine : Machine) (store : LocalStore) (site : Site) :
    (∀ harness source, site.owns source = false →
        (store.scanSite machine site).recordOf harness source = store.recordOf harness source) ↔
      (store.scans machine site = true → ∀ source, store.Has site.harness source →
        site.owns source = false → startsWith source site.path = false) := by
  constructor
  · intro frame scans source has foreign
    have kept := frame site.harness source foreign
    rw [recordOf_scanSite_unowned foreign] at kept
    by_contra below
    have covers : site.Covers site.harness source := ⟨rfl, by simpa using below⟩
    rw [if_pos ⟨scans, covers⟩] at kept
    obtain ⟨record, found⟩ := has
    rw [found] at kept
    cases kept
  · intro apart harness source foreign
    rw [recordOf_scanSite_unowned foreign]
    split
    · rename_i dropped
      obtain ⟨scans, rfl, below⟩ := dropped
      cases found : store.recordOf site.harness source with
      | none => rfl
      | some record =>
          rw [apart scans source ⟨record, found⟩ foreign] at below
          cases below
    · rfl

end Frame

section Siblings

attribute [local instance] HarnessNames.snakeCase DocumentCodec.padded

/-- A machine with two stores of one harness, one path of which starts with the other's. -/
def siblings : Machine where
  roots harness := if harness = .grokBot then ["/h/bot", "/h/bots"] else []
  listing root := if root = "/h/bots" then [⟨"a/profile.json", 1, 1⟩] else []
  stat _ := none
  discover _ _ := .ok []
  loadPath _ _ _ := .ok ⟨⟨"session", 0, none, none, none, none, ""⟩, []⟩
  loadDb _ _ _ := .error (.broken "")
  isDir _ := false
  originOf _ := .error .gitMissing
  filePath _ := none
  now := 0

theorem siblings_dropped : ¬ ∀ (machine : Machine) (store : LocalStore), ∀ site ∈ sites machine,
    ∀ harness source, site.owns source = false →
      (store.scanSite machine site).recordOf harness source = store.recordOf harness source := by
  intro frame
  have listed : (⟨.grokBot, "/h/bot", .grokBotDirs⟩ : Site) ∈ sites siblings := by decide +kernel
  have kept := frame siblings (LocalStore.start.diff siblings) _ listed .grokBot "/h/bots/a"
    (by decide +kernel)
  have before : ((LocalStore.start.diff siblings).recordOf .grokBot "/h/bots/a").isSome := by
    decide +kernel
  have after : ((LocalStore.start.diff siblings).scanSite siblings
      ⟨.grokBot, "/h/bot", .grokBotDirs⟩).recordOf .grokBot "/h/bots/a" = none := by
    decide +kernel
  rw [← kept, after] at before
  cases before

end Siblings

end AgentTranscript
