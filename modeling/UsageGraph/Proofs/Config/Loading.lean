import UsageGraph.Config.Reading
import UsageGraph.Proofs.Lists
import UsageGraph.Proofs.Yaml.Listing

/-! # Loading a configuration

* `Yaml.texts?_listing`: the words of a command are read back from a list of texts in quotes.
* `Config.Workable`, `Config.validate_eq_ok`: the configurations that an import can work with.
* `Config.workable_of_loadOrDefault`: no other configuration is loaded.
-/

namespace UsageGraph
set_option autoImplicit false

/-! ## Lists of texts -/

theorem Yaml.texts?_listing {texts : List String} (h : ∀ t ∈ texts, Fits t) :
    ∃ s n, Stream.parse? (listing texts) = some s ∧ s.root = some n ∧
      s.texts? n = some texts := by
  refine ⟨_, _, parse?_listing h, rfl, ?_⟩
  show (texts.map quotedNode).mapM _ = some texts
  rw [mapM_eq_some, List.forall₂_map_left_iff]
  exact List.forall₂_same.mpr fun t _ => rfl

example : Yaml.listing ["lib/make.sh", "it's"] = "['lib/make.sh', 'it''s']" := by decide

namespace Config

/-! ## Configurations -/

structure Workable (c : Config) : Prop where
  concurrency_pos : 0 < c.workers.concurrency
  makeCommand_ne_nil : c.compiler.makeCommand ≠ []
  timeoutSecs_pos : 0 < c.compiler.timeoutSecs

theorem validate_eq_ok {c : Config} : c.validate = .ok () ↔ Workable c := by
  rw [validate]
  constructor
  · intro h
    split at h
    · cases h
    · next hconcurrency =>
      split at h
      · cases h
      · next hmake =>
        split at h
        · cases h
        · next htimeout =>
          exact ⟨Nat.pos_of_ne_zero hconcurrency, hmake, Nat.pos_of_ne_zero htimeout⟩
  · intro h
    rw [if_neg (Nat.ne_of_gt h.concurrency_pos), if_neg h.makeCommand_ne_nil,
      if_neg (Nat.ne_of_gt h.timeoutSecs_pos)]

theorem workable_default : Workable .default := by
  rw [← validate_eq_ok]
  rfl

theorem workable_of_parse {content : String} {c : Config} (h : parse content = .ok c) :
    Workable c := by
  rw [parse] at h
  split at h
  · cases h
  · next c' hc' =>
    cases hvalid : c'.validate with
    | error f =>
      rw [hvalid] at h
      cases h
    | ok u =>
      rw [hvalid] at h
      cases h
      exact validate_eq_ok.mp hvalid

/-- Where there is no file, the defaults are as good as what a file may say. -/
theorem workable_of_loadOrDefault {path : String} {t : FileTree} {c : Config}
    (h : (loadOrDefault path t).result = .ok c) : Workable c := by
  obtain ⟨t', hstate, hloaded⟩ := Task.bind_eq_ok _ h
  cases hstate
  split at hloaded
  · rw [Task.result_ofResult] at hloaded
    cases htext : ofIo (t.readText path) with
    | error f =>
      rw [htext] at hloaded
      cases hloaded
    | ok content =>
      rw [htext] at hloaded
      exact workable_of_parse hloaded
  · obtain ⟨-, -, hdefault⟩ := Task.bind_eq_ok _ hloaded
    cases hdefault
    exact workable_default

end Config
end UsageGraph
