import UsageGraph.Proofs.Import.Slots
import UsageGraph.Proofs.Module.Transparency
import UsageGraph.Proofs.Store.Registry
import UsageGraph.Proofs.Tasks

/-! # What an import leaves behind

An import ends in many ways, and all of them lead through the same end.

* `Importer.isDirectory_emptySlot`: a slot that has been emptied is not there.
* `Importer.keeps_importOne`: the store is in order however the import ends.
* `Importer.run_cleans_up`: no slot is left, the modules in it are forgotten, and the repository is
  not pending if it could be marked.
-/

namespace UsageGraph
set_option autoImplicit false

/-! ## The last step of a slot -/

namespace Path

theorem getLast?_way_of_up {p : String} (h : (segments p.toList).getLast? = some .up) :
    (way p).getLast? = some .up := by
  obtain ⟨ps, hps⟩ := List.getLast?_eq_some_iff.mp h
  rw [way, hps, List.filter_append]
  exact List.getLast?_concat

end Path

namespace Importer
variable (i : Importer)

section
variable {repo : PackageId} (h : repo.Ordinary) {cwd workdir : String} (hcwd : Path.isAbsolute cwd)
  (hworkdir : Path.absolute? cwd (i.slot repo) = some workdir)
include h hcwd hworkdir

theorem last_ne_up_of_ordinary : (Path.segments workdir.toList).getLast? ≠ some .up := by
  intro hup
  have hne : cwd ≠ "" := by
    rintro rfl
    cases hcwd
  have hslot : Path.way (i.slot repo) =
      Path.way (Path.join i.config.paths.repos repo.owner) ++ [.name repo.name.toList] := by
    rw [slot, Path.way_join h.2.descends.1, h.2.way]
  have hlast : (Path.way workdir).getLast? = some (.name repo.name.toList) := by
    rw [Path.way_absolute? hworkdir fun _ => hne, Path.wayFromRoot, hslot]
    split
    · exact List.getLast?_concat
    · rw [← List.append_assoc]
      exact List.getLast?_concat
  rw [Path.getLast?_way_of_up hup] at hlast
  cases hlast

theorem place_ne_nil_of_ordinary : Path.place cwd workdir ≠ [] := by
  rw [place_of_ordinary i h hcwd hworkdir]
  simp

end

/-! ## Emptied slots -/

theorem state_emptySlot (workdir : String) (t : FileTree) :
    (emptySlot workdir t).state = (FileTree.removeAll workdir t).state := by
  refine Task.state_recover_value t (FileTree.removeAll workdir) fun f t => ?_
  cases f with
  | io cause => cases cause <;> rfl
  | _ => rfl

theorem isDirectory_emptySlot {workdir : String} {t : FileTree}
    (hplace : Path.place t.cwd workdir ≠ [])
    (hlast : (Path.segments workdir.toList).getLast? ≠ some .up) :
    (emptySlot workdir t).state.isDirectory workdir = false := by
  rw [state_emptySlot, FileTree.removeAll, Task.tryChange]
  cases hdir : t.isDirectory workdir with
  | true =>
    rw [FileTree.removeDirectory_of_isDirectory hdir hlast]
    exact FileTree.isDirectory_erase hplace
  | false =>
    cases hremoved : t.removeDirectory workdir with
    | error cause => exact hdir
    | ok t' =>
      rw [FileTree.isDirectory_of_removeDirectory hremoved] at hdir
      cases hdir

/-! ## The store -/

section
variable {α : Type}

theorem keeps_onWorkspace (t : Task Workspace α) :
    (Session.onWorkspace t).Keeps fun s => s.store.Keyed := fun _ h => h

theorem keeps_onStore {t : Task Store α} (h : t.Keeps Store.Keyed) :
    (Session.onStore t).Keeps fun s => s.store.Keyed := fun s hs => h s.store hs

variable {i} (hstore : i.store.Lawful)
include hstore

theorem keeps_save (repo : Repository) (references : List Reference) (history : History) :
    (i.save repo references history).Keeps Store.Keyed := by
  refine Task.Keeps.bind hstore.enter fun _ => ?_
  refine Task.Keeps.bind (hstore.upsert repo _) fun _ => ?_
  refine Task.Keeps.bind (hstore.replaceReferences _ references) fun _ => ?_
  refine Task.Keeps.bind (hstore.replaceIntervals _ _) fun _ => ?_
  exact Task.keeps_of_state fun _ => rfl

theorem keeps_importInto (repo : Repository) (workdir : String) :
    (i.importInto repo workdir).Keeps fun s => s.store.Keyed := by
  refine (keeps_onWorkspace _).bind fun _ => ?_
  refine (keeps_onWorkspace _).bind fun head => ?_
  have hreferences : (i.referencesOf repo.id workdir head).Keeps fun s => s.store.Keyed := by
    intro s hs
    rw [state_referencesOf]
    exact hs
  have hhistory : (i.historyOf repo.id workdir).Keeps fun s => s.store.Keyed := by
    intro s hs
    rw [state_historyOf]
    exact hs
  refine hreferences.bind fun references => hhistory.bind fun history => ?_
  have hdump : (i.dump repo.id references).Keeps fun s => s.store.Keyed := by
    intro s hs
    rw [store_dump]
    exact hs
  exact hdump.bind fun _ => keeps_onStore (keeps_save hstore repo references history)

theorem keeps_importOne (repo : Repository) :
    (i.importOne repo).Keeps fun s => s.store.Keyed := by
  refine (keeps_onWorkspace _).bind fun workdir => ?_
  refine Task.Keeps.bind (Task.keeps_of_state fun _ => rfl) fun _ => ?_
  have hforget : (forget workdir).Keeps fun s => s.store.Keyed := fun _ h => h
  refine hforget.bind fun _ => ?_
  refine (keeps_importInto hstore repo workdir).attempt.bind fun result => ?_
  have hclean : (cleanUp workdir).Keeps fun s => s.store.Keyed := by
    intro s hs
    rw [store_cleanUp]
    exact hs
  refine hclean.bind fun _ => ?_
  refine Task.Keeps.bind (Task.keeps_of_state fun _ => rfl) fun summary => ?_
  refine Task.Keeps.bind (Task.keeps_of_state fun _ => rfl) fun _ => ?_
  exact Task.keeps_of_state fun _ => rfl

theorem state_mark {repo : String} {t : Store} (ht : t.Keyed)
    (h : (i.mark repo t).result = .ok ()) :
    ∃ t' : Store, t'.Keyed ∧ (i.mark repo t).state = t'.markImported repo := by
  obtain ⟨_, henter, hmark⟩ := Task.bind_eq_ok _ h
  refine ⟨_, hstore.enter t ht, ?_⟩
  rw [mark, Task.state_bind_ok _ henter]
  exact hstore.markImported repo _ hmark

end

/-! ## The end of an import -/

section
variable {i} {repo : Repository} {s : Session}

theorem modules_cleanUp (workdir : String) (t : Session) : ∃ cwd,
    (cleanUp workdir t).state.modules = t.modules.invalidateUnder cwd workdir := by
  have hempty : (Session.onTree (emptySlot workdir) t).result = .ok () :=
    result_emptySlot workdir t.workspace.tree
  rw [cleanUp, Task.state_bind_ok _ hempty]
  exact ⟨_, rfl⟩

theorem tree_cleanUp (workdir : String) (t : Session) :
    (cleanUp workdir t).state.workspace.tree = (emptySlot workdir t.workspace.tree).state := by
  have hempty : (Session.onTree (emptySlot workdir) t).result = .ok () :=
    result_emptySlot workdir t.workspace.tree
  rw [cleanUp, Task.state_bind_ok _ hempty]
  rfl

theorem state_run_of_slot {workdir : String}
    (h : Path.absolute? s.cwd (i.slot repo.id) = some workdir) : ∃ t,
      (i.run repo s).state.workspace = (cleanUp workdir t).state.workspace ∧
      (i.run repo s).state.modules = (cleanUp workdir t).state.modules := by
  rw [state_run, state_markOrReport, (importOne_of_slot h).2]
  exact ⟨_, rfl, rfl⟩

/-- However an import ends, no module in its slot is remembered. -/
theorem not_covers_of_mem_run (hcwd : Path.isAbsolute s.cwd) {workdir : String}
    (hworkdir : Path.absolute? s.cwd (i.slot repo.id) = some workdir)
    {e : List Path.Part × CachedModule} (he : e ∈ (i.run repo s).state.modules.entries) :
    ¬ModuleCache.Covers s.cwd workdir e.1 := by
  have habs : Path.isAbsolute workdir := Path.isAbsolute_absolute? hworkdir hcwd
  obtain ⟨t, -, hmodules⟩ := state_run_of_slot hworkdir
  obtain ⟨cwd, hforgotten⟩ := modules_cleanUp workdir t
  rw [hmodules, hforgotten, ModuleCache.mem_invalidateUnder] at he
  rw [ModuleCache.Covers, Path.key?_of_isAbsolute habs s.cwd cwd]
  exact he.2

/-- However an import ends, its slot is gone, nothing in the slot is remembered, and the repository
is not pending if it could be marked. -/
theorem run_cleans_up (hstore : i.store.Lawful) (hrepo : repo.id.Ordinary)
    (hcwd : Path.isAbsolute s.cwd) (hkeyed : s.store.Keyed) :
    ∃ workdir, Path.absolute? s.cwd (i.slot repo.id) = some workdir ∧
      (i.run repo s).state.workspace.tree.isDirectory workdir = false ∧
      (∀ e ∈ (i.run repo s).state.modules.entries, ¬ModuleCache.Covers s.cwd workdir e.1) ∧
      ((i.mark repo.id.fullName (i.importOne repo s).state.store).result = .ok () →
        ∀ r ∈ (i.run repo s).state.store.pending, r.id ≠ repo.id) := by
  have hnames : Path.names repo.id.owner ++ Path.names repo.id.name ≠ [] := by
    rw [hrepo.1.names]
    exact List.cons_ne_nil _ _
  obtain ⟨workdir, hworkdir⟩ := exists_workdir i s.cwd repo.id hnames
  have habs : Path.isAbsolute workdir := Path.isAbsolute_absolute? hworkdir hcwd
  obtain ⟨t, hworkspace, -⟩ := state_run_of_slot hworkdir
  refine ⟨workdir, hworkdir, ?_, fun e he => not_covers_of_mem_run hcwd hworkdir he, ?_⟩
  · rw [hworkspace, tree_cleanUp]
    -- Git may have moved the working directory, but the slot does not depend on it.
    refine isDirectory_emptySlot ?_ (last_ne_up_of_ordinary i hrepo hcwd hworkdir)
    rw [Path.place_of_isAbsolute habs _ s.cwd]
    exact place_ne_nil_of_ordinary i hrepo hcwd hworkdir
  · intro hmark r hr
    have hkept : (i.importOne repo s).state.store.Keyed := keeps_importOne hstore repo s hkeyed
    obtain ⟨t', ht', hmarked⟩ := state_mark hstore hkept hmark
    rw [state_run, state_markOrReport, hmarked] at hr
    exact Store.id_ne_of_mem_pending ht' repo.id hr

end

/-- A store that takes repositories but no references. -/
def jammedStore : StoreService :=
  { StoreService.standard with replaceReferences := fun _ _ => Task.fail (.config "jammed") }

theorem lawful_jammedStore : jammedStore.Lawful :=
  { StoreService.lawful_standard with replaceReferences := fun _ _ _ h => h }

/-- An import that first registers its repository and then cannot store its references. -/
theorem run_cleans_up_jammed :
    let i : Importer := { quiet with store := jammedStore }
    let repo : Repository := ⟨"a", "b", none, none, none⟩
    (i.run repo cloned).result = .error (.config "jammed") ∧
      (i.importOne repo cloned).state.store.pending = [repo] ∧
      ∃ workdir, Path.absolute? cloned.cwd (i.slot repo.id) = some workdir ∧
        cloned.workspace.tree.isDirectory workdir = true ∧
        (i.run repo cloned).state.workspace.tree.isDirectory workdir = false ∧
        ∀ r ∈ (i.run repo cloned).state.store.pending, r.id ≠ repo.id := by
  intro i repo
  have ha : Path.Plain "a" := by refine ⟨?_, ?_, ?_, ?_⟩ <;> decide +kernel
  have hb : Path.Plain "b" := by refine ⟨?_, ?_, ?_, ?_⟩ <;> decide +kernel
  obtain ⟨workdir, hworkdir, hgone, -, hpending⟩ := @run_cleans_up i repo cloned lawful_jammedStore
    ⟨ha, hb⟩ (by decide +kernel) Store.keyed_empty
  have hslot : Path.absolute? cloned.cwd (i.slot repo.id) = some "/w/a/b" := by decide +kernel
  refine ⟨by decide +kernel, by decide +kernel, workdir, hworkdir, ?_, hgone,
    hpending (by decide +kernel)⟩
  rw [hslot] at hworkdir
  cases hworkdir
  decide +kernel

end Importer
end UsageGraph
