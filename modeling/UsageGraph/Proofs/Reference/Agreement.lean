import UsageGraph.Proofs.Crawl.Scraping
import UsageGraph.Proofs.Import.Slots
import UsageGraph.Proofs.Module.Agreement
import UsageGraph.Proofs.Reference.Assembly

/-! # References do not depend on modules elsewhere

All files that a reference pass asks for the module that they declare are below the checkout.

* `Checkout.Names`: a package under the name of a directory, at a version that is one.
* `Checkout.prefix_of_resolve`: the file of a module is below the checkout.
* `Assembly.alike_assemble`: references are assembled alike with two caches that agree on the
  checkout.
* `ReferencePass.alike_run`: the same for a whole pass.
-/

namespace UsageGraph
set_option autoImplicit false

theorem Path.prefix_of_key?_join {cwd base p : String} {key : List Part} (hbase : isAbsolute base)
    (hp : isAbsolute p = false) (h : key? cwd (join base p) = some key) : parts base <+: key := by
  obtain ⟨habs, hprefix⟩ := prefix_parts_join hbase hp
  obtain ⟨q, hq, rfl⟩ := Option.map_eq_some_iff.mp h
  rw [parts_of_absolute? hq habs]
  exact hprefix

/-! ## Files of packages -/

namespace Checkout

/-- What the place of an installed package is named after are names of directories. -/
structure Names (c : Checkout) (package : PackageId) : Prop where
  ordinary : package.Ordinary
  version : ∀ v, c.installedVersion? package = some v → Path.Plain v

section
variable {c : Checkout} {package : PackageId} {module : String} {t : FileTree}
  (habs : Path.isAbsolute c.workdir) (hnames : c.Names package)
include habs hnames

theorem prefix_of_root {version : Option String} {root : String} {pinned : Option String}
    (hversion : version = none ∨ version = c.installedVersion? package)
    (h : c.root package version module = .ok (root, pinned)) :
    Path.isAbsolute root ∧ Path.parts c.workdir <+: Path.parts root := by
  by_cases hself : package = c.current
  · rw [Checkout.root, if_pos hself] at h
    cases h
    exact ⟨habs, List.prefix_refl _⟩
  · have hinstalled : (version <|> c.installedVersion? package) = c.installedVersion? package := by
      rcases hversion with rfl | rfl
      · rfl
      · cases c.installedVersion? package <;> rfl
    rw [Checkout.root, if_neg hself, hinstalled] at h
    cases hv : c.installedVersion? package with
    | none =>
      rw [hv] at h
      cases h
    | some v =>
      rw [hv] at h
      cases h
      refine Path.prefix_parts_foldl habs fun p hp => ?_
      simp only [List.mem_cons, List.not_mem_nil, or_false] at hp
      rcases hp with rfl | rfl | rfl | rfl | rfl
      · decide +kernel
      · decide +kernel
      · exact hnames.ordinary.1.descends.1
      · exact hnames.ordinary.2.descends.1
      · exact (hnames.version _ hv).descends.1

/-- The file of a module is asked for below the checkout, wherever its source directory leads. -/
theorem prefix_of_resolve {version : Option String} {packages : LoadedPackages} {m : ResolvedModule}
    (hversion : version = none ∨ version = c.installedVersion? package)
    (hpackages : LoadedPackages.ReadFrom t packages)
    (h : (c.resolve t package version module packages).result = .ok m) {key : List Path.Part}
    (hkey : Path.key? t.cwd m.absolutePath = some key) : Path.parts c.workdir <+: key := by
  obtain ⟨-, ⟨m', m'', hm', hfresh, halike⟩ | ⟨f, -, hf, -⟩⟩ :=
    c.resolve_spec package version module hpackages
  · rw [h] at hm'
    cases hm'
    obtain ⟨⟨pinned, hroot⟩, dir, hfile⟩ := c.fresh_eq_ok _ _ _ hfresh
    obtain ⟨habs', hprefix⟩ := prefix_of_root habs hnames hversion hroot
    have hrel : Path.isAbsolute m.file = false := by
      rw [halike.file, hfile]
      exact isAbsolute_joinRelative dir _
    rw [← halike.packageRoot] at hprefix
    rw [← Path.isAbsolute_congr halike.packageRoot] at habs'
    exact hprefix.trans (Path.prefix_of_key?_join habs' hrel hkey)
  · rw [h] at hf
    cases hf

end

end Checkout

/-! ## Assembly -/

/-- The same packages have been loaded, and the caches agree on a directory. -/
structure Known.AgreeUnder (t : FileTree) (dir : List Path.Part) (k k' : Known) : Prop where
  packages : k.packages = k'.packages
  readFrom : LoadedPackages.ReadFrom t k.packages
  modules : k.modules.AgreeUnder dir k'.modules

namespace Assembly
variable {a : Assembly} {t : FileTree} {k k' : Known} {dir : List Path.Part}

theorem alike_onPackages (h : Known.AgreeUnder t dir k k') (package : PackageId)
    (version : Option String) (module : String) :
    (Known.onPackages (a.checkout.resolve t package version module) k).Alike
      (Known.AgreeUnder t dir)
      (Known.onPackages (a.checkout.resolve t package version module) k') := by
  obtain ⟨packages, modules⟩ := k
  obtain ⟨_, modules'⟩ := k'
  obtain ⟨rfl, hread, hmodules⟩ := h
  obtain ⟨hread', -⟩ := a.checkout.resolve_spec package version module hread
  exact ⟨rfl, rfl, rfl, hread', hmodules⟩

theorem alike_onModules (h : Known.AgreeUnder t dir k k') {path fingerprint : String}
    (hkey : ∀ key, Path.key? t.cwd path = some key → dir <+: key) :
    (Known.onModules (ModuleCache.moduleOf t path fingerprint) k).Alike (Known.AgreeUnder t dir)
      (Known.onModules (ModuleCache.moduleOf t path fingerprint) k') := by
  refine Outcome.Alike.onPart (ModuleCache.alike_moduleOf h.modules hkey) fun c c' hc => ?_
  exact ⟨h.packages, h.readFrom, hc⟩

section
variable (habs : Path.isAbsolute a.checkout.workdir)
include habs

theorem alike_assembleOne (h : Known.AgreeUnder t (Path.parts a.checkout.workdir) k k')
    {u : ExternalUse} (hnames : a.checkout.Names u.package)
    (hfile : Path.isAbsolute u.file = false) :
    (a.assembleOne t u k).Alike (Known.AgreeUnder t (Path.parts a.checkout.workdir))
      (a.assembleOne t u k') := by
  have hversion : a.referredVersion? u = none ∨
      a.referredVersion? u = a.checkout.installedVersion? u.package := by
    rw [referredVersion?]
    split
    · exact .inl rfl
    · exact .inr rfl
  rw [assembleOne_eq]
  refine (alike_onPackages h _ _ _).bind fun m hm hagree => ?_
  refine (alike_onModules hagree fun key hkey => ?_).bind fun referred _ hagree => ?_
  · exact Checkout.prefix_of_resolve habs hnames hversion h.readFrom hm hkey
  refine (alike_onModules hagree fun key hkey => ?_).bind fun referer _ hagree => ?_
  · exact Path.prefix_of_key?_join habs hfile hkey
  exact Outcome.alike_const hagree _ _

theorem alike_assemble {us : List ExternalUse} (hnames : ∀ u ∈ us, a.checkout.Names u.package)
    (hfiles : ∀ u ∈ us, Path.isAbsolute u.file = false)
    (h : Known.AgreeUnder t (Path.parts a.checkout.workdir) k k') :
    (a.assemble t us k).Alike (Known.AgreeUnder t (Path.parts a.checkout.workdir))
      (a.assemble t us k') := by
  induction us generalizing k k' with
  | nil => exact Outcome.alike_const h _ _
  | cons u us ih =>
    obtain ⟨hname, hnames⟩ := List.forall_mem_cons.mp hnames
    obtain ⟨hfile, hfiles⟩ := List.forall_mem_cons.mp hfiles
    rw [assemble]
    refine (alike_assembleOne habs h hname hfile).attempt.bind fun result _ hagree => ?_
    cases result with
    | ok r =>
      refine (ih hnames hfiles hagree).bind fun rs _ hagree => ?_
      exact Outcome.alike_const hagree _ _
    | error f =>
      refine (Outcome.alike_const hagree _ _).bind fun _ _ hagree => ?_
      exact ih hnames hfiles hagree

end

end Assembly

/-! ## Reference passes -/

theorem FileTree.absolute_eq_ok {path p : String} {t : FileTree} :
    (absolute path t).result = .ok p ↔ Path.absolute? t.cwd path = some p := by
  rw [absolute, Task.result_observe]
  cases Path.absolute? t.cwd path <;> simp

structure Site.AgreeUnder (dir : List Path.Part) (s s' : Site) : Prop where
  tree : s.tree = s'.tree
  modules : s.modules.AgreeUnder dir s'.modules

theorem Site.AgreeUnder.alike_onTree {α : Type} {dir : List Path.Part} {s s' : Site}
    (h : s.AgreeUnder dir s') (t : Task FileTree α) :
    (onTree t s).Alike (AgreeUnder dir) (onTree t s') :=
  Outcome.alike_onPart_of_eq t h.tree fun _ => ⟨rfl, h.modules⟩

namespace ReferencePass
variable (p : ReferencePass)

/-- The tree after the installation of what the checkout depends on. -/
def prepared (repo : PackageId) (workdir : String) (t : FileTree) : FileTree :=
  (p.install repo workdir t).state

/-- All packages of which a pass over the checkout finds uses are under names of directories, at
versions that are names of directories. -/
def NamesPackages (repo : PackageId) (workdir : String) (t : FileTree) : Prop :=
  ∀ root installed us, Path.absolute? t.cwd workdir = some root →
    exactDependencies (p.prepared repo root t) root = .ok installed →
    (p.uses repo root (p.prepared repo root t)).result = .ok us →
    ∀ u ∈ us, Checkout.Names ⟨repo, root, installed⟩ u.package

variable {p} {repo : PackageId} {workdir : String} {s s' : Site}

theorem alike_assembleAll {a : Assembly} {us : List ExternalUse}
    (habs : Path.isAbsolute a.checkout.workdir) (hnames : ∀ u ∈ us, a.checkout.Names u.package)
    (hfiles : ∀ u ∈ us, Path.isAbsolute u.file = false)
    (h : s.AgreeUnder (Path.parts a.checkout.workdir) s') :
    (assembleAll a us s).Alike (Site.AgreeUnder (Path.parts a.checkout.workdir))
      (assembleAll a us s') := by
  obtain ⟨tree, modules⟩ := s
  obtain ⟨_, modules'⟩ := s'
  obtain ⟨rfl, hmodules⟩ := h
  have hnone : LoadedPackages.ReadFrom tree [] := fun _ h => (List.not_mem_nil h).elim
  have hagree : Known.AgreeUnder tree (Path.parts a.checkout.workdir)
      ⟨[], modules⟩ ⟨[], modules'⟩ := ⟨rfl, hnone, hmodules⟩
  obtain ⟨hresult, hevents, hstate⟩ := Assembly.alike_assemble habs hnames hfiles hagree
  exact ⟨hresult, hevents, rfl, hstate.modules⟩

/-- With two caches that agree on the checkout, a pass ends alike. -/
theorem alike_run (habs : Path.isAbsolute workdir) (hscrapes : p.compiler.Scrapes)
    (h : s.AgreeUnder (Path.parts workdir) s') (hnames : p.NamesPackages repo workdir s.tree)
    (commit : String) : (p.run repo workdir commit s).Alike (Site.AgreeUnder (Path.parts workdir))
      (p.run repo workdir commit s') := by
  rw [run]
  refine (h.alike_onTree _).bind fun root hroot hagree => ?_
  rw [Site.onTree, Task.result_onPart] at hroot
  have habsolute : Path.absolute? s.tree.cwd workdir = some root := FileTree.absolute_eq_ok.mp hroot
  have hparts : Path.parts root = Path.parts workdir := Path.parts_of_absolute? habsolute habs
  have hrootabs : Path.isAbsolute root := by
    rw [Path.isAbsolute_congr hparts]
    exact habs
  refine (hagree.alike_onTree _).bind fun _ _ hagree => ?_
  refine (hagree.alike_onTree _).bind fun _ _ hagree => ?_
  refine (hagree.alike_onTree _).bind fun installed hinstalled hagree => ?_
  rw [Site.onTree, Task.result_onPart, Task.result_observe] at hinstalled
  refine (hagree.alike_onTree _).bind fun us hus hagree => ?_
  rw [Site.onTree, Task.result_onPart] at hus
  rw [← hparts] at hagree ⊢
  refine alike_assembleAll (a := p.assembly repo root commit installed) hrootabs ?_ ?_ hagree
  · exact hnames root installed us habsolute hinstalled hus
  · intro u hu
    exact relative_of_mem_uses hscrapes hus hu

end ReferencePass
end UsageGraph
