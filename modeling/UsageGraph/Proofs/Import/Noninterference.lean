import UsageGraph.Proofs.Diagnostic.Records
import UsageGraph.Proofs.Import.Cleanup
import UsageGraph.Proofs.Reference.Agreement

/-! # Imports do not learn from each other

What earlier imports have left in the module cache is never seen by a later one.

* `Session.AgreeUnder`, `Session.AgreeApart`: two sessions with caches that agree on a directory, or
  with any caches.
* `Importer.alike_importInto`: the main part of an import is alike in two sessions that agree on its
  slot.
* `Importer.run_noninterference`: an import is alike whatever the cache holds.
-/

namespace UsageGraph
set_option autoImplicit false

namespace Session

structure AgreeUnder (dir : List Path.Part) (s s' : Session) : Prop where
  workspace : s.workspace = s'.workspace
  store : s.store = s'.store
  modules : s.modules.AgreeUnder dir s'.modules

/-- The sessions are the same apart from their caches. -/
structure AgreeApart (s s' : Session) : Prop where
  workspace : s.workspace = s'.workspace
  store : s.store = s'.store

section
variable {α : Type} {dir : List Path.Part} {s s' : Session}

theorem AgreeUnder.apart (h : s.AgreeUnder dir s') : s.AgreeApart s' := ⟨h.workspace, h.store⟩

theorem AgreeUnder.alike_onWorkspace (h : s.AgreeUnder dir s') (t : Task Workspace α) :
    (onWorkspace t s).Alike (AgreeUnder dir) (onWorkspace t s') :=
  Outcome.alike_onPart_of_eq t h.workspace fun _ => ⟨rfl, h.store, h.modules⟩

theorem AgreeUnder.alike_onStore (h : s.AgreeUnder dir s') (t : Task Store α) :
    (onStore t s).Alike (AgreeUnder dir) (onStore t s') :=
  Outcome.alike_onPart_of_eq t h.store fun _ => ⟨h.workspace, rfl, h.modules⟩

theorem AgreeApart.alike_onWorkspace (h : s.AgreeApart s') (t : Task Workspace α) :
    (onWorkspace t s).Alike AgreeApart (onWorkspace t s') :=
  Outcome.alike_onPart_of_eq t h.workspace fun _ => ⟨rfl, h.store⟩

theorem AgreeApart.alike_onStore (h : s.AgreeApart s') (t : Task Store α) :
    (onStore t s).Alike AgreeApart (onStore t s') :=
  Outcome.alike_onPart_of_eq t h.store fun _ => ⟨h.workspace, rfl⟩

theorem AgreeUnder.site (h : s.AgreeUnder dir s') : s.site.AgreeUnder dir s'.site :=
  ⟨congrArg Workspace.tree h.workspace, h.modules⟩

theorem AgreeUnder.withSite (h : s.AgreeUnder dir s') {site site' : Site}
    (hsite : site.AgreeUnder dir site') : (s.withSite site).AgreeUnder dir (s'.withSite site') := by
  refine ⟨?_, h.store, hsite.modules⟩
  rw [Session.withSite, Session.withSite, h.workspace, hsite.tree]

end

end Session

namespace Importer
variable {i : Importer} {repo : PackageId} {workdir : String} {s s' : Session}
  {dir : List Path.Part}

/-! ## The main part -/

theorem alike_referencesOf (habs : Path.isAbsolute workdir) (hscrapes : i.pass.compiler.Scrapes)
    (h : s.AgreeUnder (Path.parts workdir) s')
    (hnames : i.pass.NamesPackages repo workdir s.workspace.tree) (head : String) :
    (i.referencesOf repo workdir head s).Alike (Session.AgreeUnder (Path.parts workdir))
      (i.referencesOf repo workdir head s') := by
  have hpass := ReferencePass.alike_run habs hscrapes h.site hnames head
  have hsite : (Session.onSite (i.pass.run repo workdir head) s).Alike
      (Session.AgreeUnder (Path.parts workdir))
      (Session.onSite (i.pass.run repo workdir head) s') := by
    rw [Session.onSite]
    exact Outcome.Alike.onPart hpass fun _ _ hsite => h.withSite hsite
  rw [referencesOf]
  refine hsite.recover fun f s s' h => ?_
  exact (Outcome.alike_const h _ _).bind fun _ _ h => Outcome.alike_const h _ _

theorem alike_historyOf (h : s.AgreeUnder dir s') :
    (i.historyOf repo workdir s).Alike (Session.AgreeUnder dir) (i.historyOf repo workdir s') := by
  rw [historyOf]
  refine (h.alike_onWorkspace _).recover fun f s s' h => ?_
  exact (Outcome.alike_const h _ _).bind fun _ _ h => Outcome.alike_const h _ _

theorem alike_dump (h : s.AgreeUnder dir s') (references : List Reference) :
    (i.dump repo references s).Alike (Session.AgreeUnder dir) (i.dump repo references s') := by
  rw [dump]
  cases i.config.paths.references with
  | none => exact Outcome.alike_const h _ _
  | some path =>
    refine (h.alike_onWorkspace _).attempt.bind fun result _ h => ?_
    cases result <;> exact Outcome.alike_const h _ _

theorem alike_importInto {repo : Repository} (habs : Path.isAbsolute workdir)
    (hscrapes : i.pass.compiler.Scrapes) (h : s.AgreeUnder (Path.parts workdir) s')
    (hnames : i.pass.NamesPackages repo.id workdir
      (i.checkout repo.id workdir s.workspace).state.tree) :
    (i.importInto repo workdir s).Alike (Session.AgreeUnder (Path.parts workdir))
      (i.importInto repo workdir s') := by
  rw [importInto]
  refine (h.alike_onWorkspace _).bind fun _ hclone h => ?_
  refine (h.alike_onWorkspace _).bind fun head hhead h => ?_
  have hafter : (Session.onWorkspace (Git.head i.git workdir)
      (Session.onWorkspace (Git.cloneOrPull i.git (i.cloneUrl repo.id) workdir) s).state).state =
        i.afterCheckout repo.id workdir s := by
    rw [Session.onWorkspace, Task.result_onPart] at hclone
    rw [afterCheckout, checkout, Task.state_bind_ok _ hclone]
    rfl
  rw [hafter] at h ⊢
  change i.pass.NamesPackages repo.id workdir (i.afterCheckout repo.id workdir s).workspace.tree
    at hnames
  refine (alike_referencesOf habs hscrapes h hnames head).bind fun references _ h => ?_
  refine (alike_historyOf h).bind fun history _ h => ?_
  refine (alike_dump h references).bind fun _ _ h => ?_
  exact h.alike_onStore _

/-! ## The whole import -/

theorem agreeUnder_forget (habs : Path.isAbsolute workdir) (h : s.AgreeApart s') :
    (forget workdir s).state.AgreeUnder (Path.parts workdir) (forget workdir s').state := by
  refine ⟨h.workspace, h.store, ?_⟩
  have hkey := Path.key?_self_of_isAbsolute habs s.cwd
  have hcwd : s'.cwd = s.cwd := by
    rw [Session.cwd, Session.cwd, h.workspace]
  rw [forget, Task.state_change, Task.state_change, hcwd]
  exact ModuleCache.agreeUnder_invalidateUnder hkey _ _

theorem alike_cleanUp (habs : Path.isAbsolute workdir) (h : s.AgreeApart s') :
    (cleanUp workdir s).Alike Session.AgreeApart (cleanUp workdir s') := by
  rw [cleanUp]
  refine (h.alike_onWorkspace _).bind fun _ _ h => ?_
  exact ⟨rfl, rfl, (agreeUnder_forget habs h).apart⟩

theorem alike_importOne {repo : Repository} (hscrapes : i.pass.compiler.Scrapes)
    (hcwd : Path.isAbsolute s.cwd)
    (hnames : ∀ workdir, Path.absolute? s.cwd (i.slot repo.id) = some workdir →
      i.pass.NamesPackages repo.id workdir (i.checkout repo.id workdir s.workspace).state.tree)
    (h : s.AgreeApart s') :
    (i.importOne repo s).Alike Session.AgreeApart (i.importOne repo s') := by
  rw [importOne]
  refine (h.alike_onWorkspace _).bind fun workdir habsolute h => ?_
  have hworkdir : Path.absolute? s.cwd (i.slot repo.id) = some workdir :=
    FileTree.absolute_eq_ok.mp habsolute
  have habs : Path.isAbsolute workdir := Path.isAbsolute_absolute? hworkdir hcwd
  refine (Outcome.alike_const h _ _).bind fun _ _ h => ?_
  -- Both caches forget the slot, and agree on it until the end of the import.
  refine Outcome.Alike.bind ⟨rfl, rfl, (agreeUnder_forget habs h).apart⟩ fun _ _ _ => ?_
  have hinto := alike_importInto habs hscrapes (agreeUnder_forget habs h) (hnames workdir hworkdir)
  refine (hinto.attempt.mono Session.AgreeUnder.apart).bind fun result _ h => ?_
  refine (alike_cleanUp habs h).bind fun _ _ h => ?_
  refine (Outcome.alike_const h _ _).bind fun summary _ h => ?_
  exact (Outcome.alike_const h _ _).bind fun _ _ h => Outcome.alike_const h _ _

/-- Whatever the cache holds, an import ends as with an empty one, reports the same and leaves the
same files and the same store. Nothing in its slot is remembered. -/
theorem run_noninterference {repo : Repository} (hscrapes : i.pass.compiler.Scrapes)
    (hcwd : Path.isAbsolute s.cwd)
    (hnames : ∀ workdir, Path.absolute? s.cwd (i.slot repo.id) = some workdir →
      i.pass.NamesPackages repo.id workdir (i.checkout repo.id workdir s.workspace).state.tree) :
    (i.run repo s).Alike Session.AgreeApart (i.run repo { s with modules := .empty }) ∧
      ∀ workdir, Path.absolute? s.cwd (i.slot repo.id) = some workdir →
        ∀ e ∈ (i.run repo s).state.modules.entries, ¬ModuleCache.Covers s.cwd workdir e.1 := by
  refine ⟨?_, fun workdir hworkdir e he => not_covers_of_mem_run hcwd hworkdir he⟩
  have hapart : s.AgreeApart { s with modules := .empty } := ⟨rfl, rfl⟩
  rw [run]
  refine (alike_importOne hscrapes hcwd hnames hapart).attempt.bind fun result _ h => ?_
  have hmark : ∀ {s s' : Session}, s.AgreeApart s' →
      (i.markOrReport repo.id s).Alike Session.AgreeApart (i.markOrReport repo.id s') := by
    intro s s' h
    rw [markOrReport]
    exact (h.alike_onStore _).recover fun f s s' h => Outcome.alike_const h _ _
  exact (hmark h).bind fun _ _ h => Outcome.alike_const h _ _

/-! ## A stale entry -/

/-- In `M`, a value is used that `U` of the same repository defines. -/
def usage : ExternalUse := ⟨"h", ⟨"a", "b"⟩, "U", ⟨⟨3, 1⟩, ⟨3, 7⟩⟩, "M.elm"⟩

def usageOverview : List Char :=
  Overview.renderChars ⟨usage.symbol, usage.package, usage.module⟩ '(' ')'

def usageLine : List Char :=
  "[\"external value\",\"".toList ++ usageOverview.flatMap escapeChar ++
    "\",[[3,1],[3,7]],\"M.elm\"]".toList

theorem scrape_usageLine :
    scrape (String.ofList usageLine) "/w/a/b" = ⟨[usage], ["M.elm"]⟩ := by
  have hline : Text.linesChars usageLine = [usageLine] := by decide +kernel
  have hrecord : Diagnostic.ofLine? (String.ofList usageLine) =
      some [⟨externalTag, String.ofList usageOverview, usage.region, "M.elm"⟩] := by
    rw [Diagnostic.ofLine?, Document.parse?, Text.trim, String.toList_ofList, String.toList_ofList]
    decide +kernel
  have hdiagnostics : diagnostics (String.ofList usageLine) =
      [⟨externalTag, String.ofList usageOverview, usage.region, "M.elm"⟩] := by
    rw [diagnostics, Text.lines, String.toList_ofList, hline, List.map_singleton,
      List.flatMap_singleton, Diagnostic.ofLine, hrecord, Option.getD_some]
  have hparse : Overview.parse? (String.ofList usageOverview) =
      some ⟨usage.symbol, usage.package, usage.module⟩ := by
    rw [Overview.parse?, Overview.flatten, String.toList_ofList]
    decide +kernel
  have hname : relativeName "M.elm" "/w/a/b" = "M.elm" := by decide +kernel
  rw [scrape_of_record hdiagnostics rfl hparse (by decide +kernel), hname]
  rfl

def reporting : Importer := { quiet with pass := { quiet.pass with
  compiler := ⟨fun _ _ => return ⟨[usage], ["M.elm"]⟩, fun _ => return ()⟩ } }

theorem scrapes_reporting : reporting.pass.compiler.Scrapes := by
  intro workdir file t r h
  cases h
  exact ⟨_, _, scrape_usageLine.symm⟩

/-- A checkout of which the cache says, for the commit that is checked out, what is not so. -/
def misremembered : Session where
  workspace := ⟨⟨[(["w"], .directory), (["w", "a"], .directory), (["w", "a", "b"], .directory),
    (["w", "a", "b", ".git"], .directory), (["w", "a", "b", "M.elm"], .file (.text "module M")),
    (["w", "a", "b", "U.elm"], .file (.text "module U")),
    (["w", "a", "b", "elm-package.json"], .file (.text "\x7b\x7d"))], "/w"⟩, []⟩
  modules := ⟨[(Path.parts "/w/a/b/M.elm", ⟨"", some "N"⟩)]⟩
  store := .empty

theorem namesPackages_misremembered : reporting.pass.NamesPackages ⟨"a", "b"⟩ "/w/a/b"
    (reporting.checkout ⟨"a", "b"⟩ "/w/a/b" misremembered.workspace).state.tree := by
  intro root installed us hroot hinstalled hus u hu
  have ha : Path.Plain "a" := by refine ⟨?_, ?_, ?_, ?_⟩ <;> decide +kernel
  have hb : Path.Plain "b" := by refine ⟨?_, ?_, ?_, ?_⟩ <;> decide +kernel
  generalize htree : (reporting.checkout ⟨"a", "b"⟩ "/w/a/b" misremembered.workspace).state.tree = t
    at hroot hinstalled hus
  have hplace : Path.absolute? t.cwd "/w/a/b" = some "/w/a/b" := by
    rw [← htree]
    decide +kernel
  rw [hplace, Option.some.injEq] at hroot
  subst hroot
  have hnone : exactDependencies (reporting.pass.prepared ⟨"a", "b"⟩ "/w/a/b" t) "/w/a/b" =
      .ok .empty := by
    rw [← htree]
    decide +kernel
  have huses : (reporting.pass.uses ⟨"a", "b"⟩ "/w/a/b"
      (reporting.pass.prepared ⟨"a", "b"⟩ "/w/a/b" t)).result = .ok [usage, usage] := by
    rw [← htree]
    decide +kernel
  rw [hnone] at hinstalled
  rw [huses] at hus
  cases hinstalled
  cases hus
  have hu : u = usage := by simpa using hu
  subst hu
  exact ⟨⟨ha, hb⟩, nofun⟩

/-- An entry that was left for a file in the slot, at the commit that is imported, is not used. -/
theorem run_noninterference_misremembered :
    misremembered.modules.hit? (Path.parts "/w/a/b/M.elm") "" = some ⟨"", some "N"⟩ ∧
    (reporting.run ⟨"a", "b", none, none, none⟩ misremembered).Alike Session.AgreeApart
      (reporting.run ⟨"a", "b", none, none, none⟩ { misremembered with modules := .empty }) ∧
    ((reporting.run ⟨"a", "b", none, none, none⟩ misremembered).state.store.files.map fun p =>
      p.2.module) = [some "M", some "U"] := by
  have hslot : Path.absolute? misremembered.cwd (reporting.slot ⟨"a", "b"⟩) = some "/w/a/b" := by
    decide +kernel
  have halike := @run_noninterference reporting misremembered ⟨"a", "b", none, none, none⟩
    scrapes_reporting (by decide +kernel) fun workdir hworkdir => by
      change Path.absolute? misremembered.cwd (reporting.slot ⟨"a", "b"⟩) = _ at hworkdir
      rw [hslot, Option.some.injEq] at hworkdir
      subst hworkdir
      exact namesPackages_misremembered
  exact ⟨by decide +kernel, halike.1, by decide +kernel⟩

end Importer
end UsageGraph
