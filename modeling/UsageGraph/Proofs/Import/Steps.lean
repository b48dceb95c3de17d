import UsageGraph.Import.Importer
import UsageGraph.Proofs.Git.Restoring
import UsageGraph.Proofs.History.AsOf
import UsageGraph.Proofs.History.WellFormed
import UsageGraph.Proofs.Store.Replacement

/-! # The steps of an import

What every step of an import ends with and what it leaves behind.

* `Importer.checkout`: the clone of a repository and the commit that it is at. No other step makes
  an import fail.
* `Importer.passed`, `Importer.replayed`: how the two passes over a checkout end.
* `Importer.saved`: a store in which an import has been saved.
* `Importer.importInto_of_failed_checkout`, `Importer.importInto_of_checkout`: the import as a
  whole.
-/

namespace UsageGraph
set_option autoImplicit false

namespace Importer
variable (i : Importer)

/-! ## The passes -/

def checkout (repo : PackageId) (workdir : String) : Task Workspace String := do
  Git.cloneOrPull i.git (i.cloneUrl repo) workdir
  Git.head i.git workdir

/-- The session in which a repository has been checked out, whether well or not. -/
def afterCheckout (repo : PackageId) (workdir : String) (s : Session) : Session :=
  { s with workspace := (i.checkout repo workdir s.workspace).state }

/-- The reference pass over a fresh checkout. -/
def passed (repo : PackageId) (workdir head : String) (s : Session) :
    Outcome Site (List Reference) :=
  i.pass.run repo workdir head (i.afterCheckout repo workdir s).site

/-- The history of a checkout, extracted after the reference pass. -/
def replayed (repo : PackageId) (workdir head : String) (s : Session) :
    Outcome Workspace History :=
  i.replay repo workdir
    ((i.afterCheckout repo workdir s).withSite (i.passed repo workdir head s).state).workspace

section
variable (repo : PackageId) (workdir head : String) (s : Session)

theorem result_referencesOf : (i.referencesOf repo workdir head s).result =
    .ok ((i.pass.run repo workdir head s.site).result.toOption.getD []) :=
  Task.result_recover_value s _ fun _ _ => rfl

theorem state_referencesOf : (i.referencesOf repo workdir head s).state =
    s.withSite (i.pass.run repo workdir head s.site).state :=
  Task.state_recover_value s _ fun _ _ => rfl

theorem result_historyOf : (i.historyOf repo workdir s).result =
    .ok ((i.replay repo workdir s.workspace).result.toOption.getD .none) :=
  Task.result_recover_value s _ fun _ _ => rfl

theorem state_historyOf : (i.historyOf repo workdir s).state =
    { s with workspace := (i.replay repo workdir s.workspace).state } :=
  Task.state_recover_value s _ fun _ _ => rfl

theorem result_dump (references : List Reference) :
    (i.dump repo references s).result = .ok () := by
  rw [dump]
  cases i.config.paths.references with
  | none => rfl
  | some dir =>
    change ((Task.attempt _ >>= _) s).result = _
    rw [Task.result_bind_ok _ (Task.result_attempt s _)]
    cases (Session.onTree (dumpReferences dir repo references) s).result <;> rfl

theorem store_dump (references : List Reference) :
    (i.dump repo references s).state.store = s.store := by
  rw [dump]
  cases i.config.paths.references with
  | none => rfl
  | some dir =>
    change ((Task.attempt _ >>= _) s).state.store = _
    rw [Task.state_bind_ok _ (Task.result_attempt s _)]
    cases (Session.onTree (dumpReferences dir repo references) s).result <;> rfl

end

/-! ## Histories -/

theorem extract_of_replay {repo : PackageId} {workdir : String} {w : Workspace} {h : History}
    (hr : (i.replay repo workdir w).result = .ok h) : ∃ w',
      (i.extractor.extract repo.fullName (Git.historySource i.git workdir) w').result = .ok h := by
  obtain ⟨-, v, -, -, ⟨-, f, hfailed⟩ | ⟨hresult, -⟩⟩ := Git.follows_withRestoredCheckout i.git
    workdir (i.extractor.extract repo.fullName (Git.historySource i.git workdir)) w
  · cases hr.symm.trans hfailed
  · exact ⟨v, hresult.symm.trans hr⟩

/-! ## The store -/

def saved (repo : Repository) (references : List Reference) (h : History) (t : Store) : Store :=
  (((t.upsert repo h.lifetime).replaceReferences repo.id.fullName references).2.replaceIntervals
    repo.id.fullName h.intervals).2

section
variable (repo : Repository) (references : List Reference) (h : History) (t : Store)

theorem referencesFrom_saved (other : String) : (saved repo references h t).referencesFrom other =
    (t.replaceReferences repo.id.fullName references).2.referencesFrom other := by
  obtain ⟨rows, hrows⟩ := Store.upsert_eq t repo h.lifetime
  change ((t.upsert repo h.lifetime).replaceReferences _ references).2.referencesFrom other = _
  rw [hrows, Store.replaceReferences_withRepositories, Store.referencesFrom_withRepositories]

variable {i} (hstore : i.store = .standard)
include hstore

theorem result_save : (i.save repo references h t).result =
    .ok ⟨((saved repo references h t).referencesFrom repo.id.fullName).length.toUInt64,
      h.intervals.length.toUInt64, h.skipped⟩ := by
  have hcount := Store.count_replaceReferences (t.upsert repo h.lifetime) repo.id.fullName references
  rw [save, hstore]
  change Except.ok (ImportSummary.mk
    ((t.upsert repo h.lifetime).replaceReferences _ references).1.toUInt64 _ _) = _
  rw [hcount]
  rfl

theorem state_save : (i.save repo references h t).state = saved repo references h t := by
  rw [save, hstore]
  rfl

end

/-! ## The whole import -/

section
variable {i} {repo : Repository} {workdir : String} {s : Session}

theorem importInto_of_failed_checkout {f : Fault}
    (h : (i.checkout repo.id workdir s.workspace).result = .error f) :
    (i.importInto repo workdir s).result = .error f ∧
      (i.importInto repo workdir s).state.store = s.store := by
  cases hc : (Git.cloneOrPull i.git (i.cloneUrl repo.id) workdir s.workspace).result with
  | error f' =>
    have hclone : (Session.onWorkspace (Git.cloneOrPull i.git (i.cloneUrl repo.id) workdir)
      s).result = .error f' := hc
    rw [checkout, Task.result_bind_error _ hc] at h
    cases h
    rw [importInto, Task.result_bind_error _ hclone, Task.state_bind_error _ hclone]
    exact ⟨rfl, rfl⟩
  | ok =>
    have hclone : (Session.onWorkspace (Git.cloneOrPull i.git (i.cloneUrl repo.id) workdir)
      s).result = .ok () := hc
    rw [checkout, Task.result_bind_ok _ hc] at h
    have hhead : (Session.onWorkspace (Git.head i.git workdir)
      (Session.onWorkspace (Git.cloneOrPull i.git (i.cloneUrl repo.id) workdir) s).state).result =
        .error f := h
    rw [importInto, Task.result_bind_ok _ hclone, Task.state_bind_ok _ hclone,
      Task.result_bind_error _ hhead, Task.state_bind_error _ hhead]
    exact ⟨rfl, rfl⟩

/-- A repository that is checked out is saved, whatever its passes end with. -/
theorem importInto_of_checkout (hstore : i.store = .standard) {head : String}
    (h : (i.checkout repo.id workdir s.workspace).result = .ok head) :
    let references := (i.passed repo.id workdir head s).result.toOption.getD []
    let history := (i.replayed repo.id workdir head s).result.toOption.getD .none
    (i.importInto repo workdir s).result =
        .ok ⟨((saved repo references history s.store).referencesFrom repo.id.fullName).length.toUInt64,
          history.intervals.length.toUInt64, history.skipped⟩ ∧
      (i.importInto repo workdir s).state.store = saved repo references history s.store := by
  intro references history
  obtain ⟨_, hc, hh⟩ := Task.bind_eq_ok _ h
  have hclone : (Session.onWorkspace (Git.cloneOrPull i.git (i.cloneUrl repo.id) workdir)
    s).result = .ok () := hc
  have hhead : (Session.onWorkspace (Git.head i.git workdir)
    (Session.onWorkspace (Git.cloneOrPull i.git (i.cloneUrl repo.id) workdir) s).state).result =
      .ok head := hh
  have hafter : (Session.onWorkspace (Git.head i.git workdir)
    (Session.onWorkspace (Git.cloneOrPull i.git (i.cloneUrl repo.id) workdir) s).state).state =
      i.afterCheckout repo.id workdir s := by
    rw [afterCheckout, checkout, Task.state_bind_ok _ hc]
    rfl
  rw [importInto, Task.result_bind_ok _ hclone, Task.state_bind_ok _ hclone,
    Task.result_bind_ok _ hhead, Task.state_bind_ok _ hhead, hafter,
    Task.result_bind_ok _ (result_referencesOf ..), Task.state_bind_ok _ (result_referencesOf ..),
    state_referencesOf, Task.result_bind_ok _ (result_historyOf ..),
    Task.state_bind_ok _ (result_historyOf ..), state_historyOf,
    Task.result_bind_ok _ (result_dump ..), Task.state_bind_ok _ (result_dump ..)]
  rw [Session.onStore, Task.result_onPart, Task.state_onPart, store_dump]
  exact ⟨result_save repo references history s.store hstore,
    state_save repo references history s.store hstore⟩

end

end Importer
end UsageGraph
