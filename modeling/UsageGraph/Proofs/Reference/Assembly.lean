import UsageGraph.Reference.Assembly
import UsageGraph.Proofs.Module.Lookup
import UsageGraph.Proofs.Module.Resolution
import Mathlib.Data.List.Forall2
import Mathlib.Data.List.ReduceOption

/-! # Every use is assembled by itself

What has been read for earlier uses is used again for later ones. It changes nothing in a reference.

* `Known.ReadFrom`: what is known has been read from the tree, and says what reading it again would.
* `Assembly.single`: the reference of a use when every file is read anew.
* `Assembly.assembleOne_spec`: the reference of a use after other uses.
* `Assembly.Settles`: what the assembly of a list makes of one use in it.
* `Assembly.assemble_settles`: it makes that of every use of every list.
-/

namespace UsageGraph
set_option autoImplicit false

/-! ## Files that are there -/

namespace FileTree

/-- The path leads to a text once it is absolute. -/
def Readable (t : FileTree) (path : String) : Prop := ∃ s, t.source path = .ok s

/-- The path leads to a file once it is absolute. -/
def HasFile (t : FileTree) (path : String) : Prop :=
  ∃ p, Path.absolute? t.cwd path = some p ∧ t.isFile p

variable {t : FileTree} {path : String}

theorem readable_iff : t.Readable path ↔ ∃ m, ModuleCache.uncached t path = .ok m := by
  rw [Readable, ModuleCache.uncached]
  cases t.source path <;> simp [Except.map]

theorem Readable.hasFile (h : t.Readable path) : t.HasFile path := by
  obtain ⟨s, hs⟩ := h
  obtain ⟨p, hp, hread⟩ := source_eq_ok.mp hs
  exact ⟨p, hp, isFile_of_readText hread⟩

theorem Readable.not_endsInSlash (h : t.Readable path) : Path.endsInSlash path = false := by
  obtain ⟨s, hs⟩ := h
  obtain ⟨p, hp, hread⟩ := source_eq_ok.mp hs
  rw [Bool.eq_false_iff]
  intro hslash
  have hend := Path.endsInSlash_absolute? hp hslash
  rw [(firm_of_readText hread).not_endsInSlash] at hend
  cases hend

end FileTree

/-! ## What is known -/

namespace Known
variable {t : FileTree} {k : Known}

def fresh : Known := ⟨[], .empty⟩

structure ReadFrom (t : FileTree) (k : Known) : Prop where
  packages : LoadedPackages.ReadFrom t k.packages
  modules : ModuleCache.ReadFrom t k.modules

theorem readFrom_fresh (t : FileTree) : fresh.ReadFrom t :=
  ⟨fun _ h => (List.not_mem_nil h).elim, ModuleCache.readFrom_empty t⟩

theorem ReadFrom.resolve (h : k.ReadFrom t) (c : Checkout) (package : PackageId)
    (version : Option String) (module : String) :
    (onPackages (c.resolve t package version module) k).state.ReadFrom t ∧
    ((∃ m m', (onPackages (c.resolve t package version module) k).result = .ok m ∧
        c.fresh t package version module = .ok m' ∧ m.Alike m') ∨
      ∃ f f', (onPackages (c.resolve t package version module) k).result = .error f ∧
        c.fresh t package version module = .error f') := by
  obtain ⟨hpackages, hresult⟩ := c.resolve_spec package version module h.packages
  exact ⟨⟨hpackages, h.modules⟩, hresult⟩

theorem ReadFrom.moduleOf (h : k.ReadFrom t) (path fingerprint : String) :
    (onModules (ModuleCache.moduleOf t path fingerprint) k).state.ReadFrom t ∧
    (Path.endsInSlash path = false →
      (onModules (ModuleCache.moduleOf t path fingerprint) k).result =
        ModuleCache.uncached t path) := by
  obtain ⟨hmodules, hresult⟩ := ModuleCache.moduleOf_of_readFrom h.modules path fingerprint
  exact ⟨⟨h.packages, hmodules⟩, hresult⟩

end Known

/-! ## One use -/

namespace Assembly
variable (a : Assembly) {t : FileTree} {k : Known}

def refererPath (u : ExternalUse) : String := Path.join a.checkout.workdir u.file

/-- What is left to do once the module has been resolved. -/
def declare (t : FileTree) (u : ExternalUse) (m : ResolvedModule) : Task Known Reference := do
  let referred ← Known.onModules
    (ModuleCache.moduleOf t m.absolutePath ((a.referredVersion? u).getD a.commit))
  let referer ← Known.onModules (ModuleCache.moduleOf t (a.refererPath u) a.commit)
  return a.reference u m referred referer

theorem assembleOne_eq (t : FileTree) (u : ExternalUse) : a.assembleOne t u =
    Known.onPackages (a.checkout.resolve t u.package (a.referredVersion? u) u.module) >>=
      a.declare t u := rfl

/-- The same when both files are read anew. -/
def declareFresh (t : FileTree) (u : ExternalUse) (m : ResolvedModule) : Except Fault Reference := do
  let referred ← ModuleCache.uncached t m.absolutePath
  let referer ← ModuleCache.uncached t (a.refererPath u)
  return a.reference u m referred referer

/-- The reference of a use when every file is read anew. -/
def single (t : FileTree) (u : ExternalUse) : Except Fault Reference := do
  let m ← a.checkout.fresh t u.package (a.referredVersion? u) u.module
  a.declareFresh t u m

section
variable (u : ExternalUse) {m : ResolvedModule}

theorem declare_spec (h : k.ReadFrom t) (hm : Path.Firm m.file) :
    (a.declare t u m k).state.ReadFrom t ∧
    (Path.endsInSlash (a.refererPath u) = false →
      (a.declare t u m k).result = a.declareFresh t u m) ∧
    ∀ r, (a.declare t u m k).result = .ok r → ∃ referred referer,
      ModuleCache.uncached t m.absolutePath = .ok referred ∧
      r = a.reference u m referred referer := by
  obtain ⟨hknown, hreferred⟩ :=
    h.moduleOf m.absolutePath ((a.referredVersion? u).getD a.commit)
  have hreferred := hreferred (hm.join m.packageRoot).not_endsInSlash
  rw [declare, declareFresh]
  cases hfirst : ModuleCache.uncached t m.absolutePath with
  | error f =>
    rw [hfirst] at hreferred
    rw [Task.state_bind_error _ hreferred, Task.result_bind_error _ hreferred]
    exact ⟨hknown, fun _ => rfl, nofun⟩
  | ok referred =>
    rw [hfirst] at hreferred
    rw [Task.state_bind_ok _ hreferred, Task.result_bind_ok _ hreferred]
    obtain ⟨hknown', hreferer⟩ := hknown.moduleOf (a.refererPath u) a.commit
    rw [Task.state_bind, Task.result_bind]
    split
    · next referer hsecond =>
      rw [hsecond] at hreferer
      refine ⟨hknown', fun hslash => ?_, fun r hr => ⟨referred, referer, rfl, ?_⟩⟩
      · rw [← hreferer hslash]
        rfl
      · exact (Except.ok.inj hr).symm
    · next f hsecond =>
      rw [hsecond] at hreferer
      refine ⟨hknown', fun hslash => ?_, nofun⟩
      rw [← hreferer hslash]
      rfl

end

/-- The spelling of the package root is not seen in a file that is read. -/
theorem uncached_absolutePath {m m' : ResolvedModule} (h : m.Alike m') (hm : Path.Firm m'.file) :
    ModuleCache.uncached t m.absolutePath = ModuleCache.uncached t m'.absolutePath := by
  have hparts := Path.parts_join_congr h.packageRoot m'.file
  rw [ResolvedModule.absolutePath, ResolvedModule.absolutePath, h.file, ModuleCache.uncached,
    ModuleCache.uncached, t.source_eq_of_firm (hm.join _) (hm.join _) hparts]

theorem reference_congr {m m' : ResolvedModule} (h : m.Alike m') (u : ExternalUse)
    (referred referer : Option String) :
    a.reference u m referred referer = a.reference u m' referred referer := by
  rw [reference, reference, h.file]

/-- Whatever has been read before, a use whose path does not end in a slash gets the reference that
it gets when every file is read anew. -/
theorem assembleOne_spec (h : k.ReadFrom t) (u : ExternalUse) :
    (a.assembleOne t u k).state.ReadFrom t ∧
    (Path.endsInSlash (a.refererPath u) = false →
      (a.assembleOne t u k).result.toOption = (a.single t u).toOption) ∧
    ∀ r, (a.assembleOne t u k).result = .ok r → ∃ m referred referer,
      a.checkout.fresh t u.package (a.referredVersion? u) u.module = .ok m ∧
      ModuleCache.uncached t m.absolutePath = .ok referred ∧
      r = a.reference u m referred referer := by
  -- The resolved module is the fresh one up to its spelling, which no file and no text depends on.
  obtain ⟨hstate, ⟨m, m', hm, hm', halike⟩ | ⟨f, f', hf, hf'⟩⟩ :=
    h.resolve a.checkout u.package (a.referredVersion? u) u.module
  · obtain ⟨-, dir, hfile⟩ := a.checkout.fresh_eq_ok _ _ _ hm'
    have hfirm : Path.Firm m'.file := hfile ▸ firm_joinRelative dir (firm_modulePath u.module)
    obtain ⟨hknown, hresult, hsound⟩ := a.declare_spec u hstate (halike.file ▸ hfirm)
    rw [assembleOne_eq, single, hm', Task.result_bind_ok _ hm, Task.state_bind_ok _ hm]
    refine ⟨hknown, fun hslash => ?_, fun r hr => ?_⟩
    · rw [hresult hslash, declareFresh, uncached_absolutePath halike hfirm]
      simp only [a.reference_congr halike]
      rfl
    · obtain ⟨referred, referer, hreferred, rfl⟩ := hsound r hr
      rw [uncached_absolutePath halike hfirm] at hreferred
      exact ⟨m', referred, referer, rfl, hreferred, a.reference_congr halike u referred referer⟩
  · rw [assembleOne_eq, single, hf', Task.result_bind_error _ hf, Task.state_bind_error _ hf]
    exact ⟨hstate, fun _ => rfl, nofun⟩

theorem result_assemble_cons (u : ExternalUse) {us : List ExternalUse} {rs : List Reference}
    (h : (a.assemble t us (a.assembleOne t u k).state).result = .ok rs) :
    (a.assemble t (u :: us) k).result =
      .ok ((a.assembleOne t u k).result.toOption.toList ++ rs) := by
  have hattempt := Task.result_attempt k (a.assembleOne t u)
  rw [assemble, Task.result_bind_ok _ hattempt, Task.state_attempt]
  cases hone : (a.assembleOne t u k).result with
  | ok r =>
    simp only
    rw [Task.result_bind_ok _ h]
    rfl
  | error f => exact h

/-- A use without a reference is dropped, so no use makes the assembly fail. -/
theorem exists_assemble (us : List ExternalUse) (k : Known) :
    ∃ rs, (a.assemble t us k).result = .ok rs := by
  induction us generalizing k with
  | nil => exact ⟨[], rfl⟩
  | cons u us ih =>
    obtain ⟨rs, hrs⟩ := ih (a.assembleOne t u k).state
    exact ⟨_, a.result_assemble_cons u hrs⟩

/-! ## All uses -/

/-- The module of the use is in a file of its package. -/
def Resolves (t : FileTree) (u : ExternalUse) (m : ResolvedModule) : Prop :=
  (a.checkout.resolve t u.package (a.referredVersion? u) u.module []).result = .ok m

/-- What is made of a use. A path that ends in a slash leads to no file, but it is found among the
files that have been read before. -/
structure Settles (t : FileTree) (u : ExternalUse) (o : Option Reference) : Prop where
  found : ∀ m, a.Resolves t u m → t.Readable m.absolutePath → t.Readable (a.refererPath u) → o.isSome
  needed : ∀ r, o = some r → ∃ m referred referer, a.Resolves t u m ∧ t.Readable m.absolutePath ∧
    (Path.endsInSlash (a.refererPath u) = false → t.Readable (a.refererPath u)) ∧
    r = a.reference u m referred referer
  alone : Path.endsInSlash (a.refererPath u) = false →
    (a.assemble t [u] .fresh).result = .ok o.toList
  versionless : ∀ r, o = some r → (r.version = none ↔ u.package = a.repo)
  installed : ∀ r v, o = some r → r.version = some v →
    a.checkout.installedVersion? u.package = some v ∧
    t.HasFile (Path.join (a.checkout.packageRoot u.package v) r.referred.file)

theorem root_of_reference {u : ExternalUse} {root : String} {pinned : Option String}
    (h : a.checkout.root u.package (a.referredVersion? u) u.module = .ok (root, pinned)) :
    (a.referredVersion? u = none ↔ u.package = a.repo) ∧
    ∀ v, a.referredVersion? u = some v → a.checkout.installedVersion? u.package = some v ∧
      root = a.checkout.packageRoot u.package v := by
  by_cases hself : u.package = a.repo
  · have hnone : a.referredVersion? u = none := if_pos hself
    rw [hnone]
    exact ⟨⟨fun _ => hself, fun _ => rfl⟩, nofun⟩
  · have hother : u.package ≠ a.checkout.current := hself
    have hversion : a.referredVersion? u = a.checkout.installedVersion? u.package := if_neg hself
    rw [hversion, Checkout.root, if_neg hother] at h
    rw [hversion]
    cases hv : a.checkout.installedVersion? u.package with
    | none =>
      rw [hv] at h
      cases h
    | some v =>
      rw [hv] at h
      cases h
      refine ⟨⟨nofun, fun h => absurd h hself⟩, fun v' hv' => ?_⟩
      cases hv'
      exact ⟨rfl, rfl⟩

theorem isSome_single (u : ExternalUse) : (a.single t u).toOption.isSome ↔
    ∃ m, a.Resolves t u m ∧ t.Readable m.absolutePath ∧ t.Readable (a.refererPath u) := by
  simp only [Resolves, Checkout.resolve_nil, FileTree.readable_iff, single, declareFresh]
  cases a.checkout.fresh t u.package (a.referredVersion? u) u.module with
  | error f => exact ⟨nofun, nofun⟩
  | ok m =>
    cases hreferred : ModuleCache.uncached t m.absolutePath with
    | error f => simp [bind, Except.bind, Except.toOption, hreferred]
    | ok referred =>
      cases hreferer : ModuleCache.uncached t (a.refererPath u) with
      | error f => simp [bind, Except.bind, Except.toOption, hreferred]
      | ok referer => simp [bind, Except.bind, pure, Except.pure, Except.toOption, hreferred]

theorem settles_assembleOne (h : k.ReadFrom t) (u : ExternalUse) :
    a.Settles t u (a.assembleOne t u k).result.toOption := by
  obtain ⟨-, hresult, hsound⟩ := a.assembleOne_spec h u
  have hreference : ∀ r, (a.assembleOne t u k).result.toOption = some r →
      (a.assembleOne t u k).result = .ok r := by
    intro r hr
    cases hone : (a.assembleOne t u k).result with
    | error f =>
      rw [hone] at hr
      cases hr
    | ok r' =>
      rw [hone] at hr
      cases hr
      rfl
  refine ⟨fun m hm hreferred hreferer => ?_, fun r hr => ?_, fun hslash => ?_, fun r hr => ?_,
    fun r v hr hv => ?_⟩
  · rw [hresult hreferer.not_endsInSlash]
    exact (a.isSome_single u).mpr ⟨m, hm, hreferred, hreferer⟩
  · obtain ⟨m, referred, referer, hm, hreferred, hr'⟩ := hsound r (hreference r hr)
    refine ⟨m, referred, referer, (a.checkout.resolve_nil _ _ _ t).trans hm,
      FileTree.readable_iff.mpr ⟨referred, hreferred⟩, fun hslash => ?_, hr'⟩
    have hsome := Option.isSome_of_eq_some hr
    rw [hresult hslash, a.isSome_single] at hsome
    obtain ⟨_, -, -, hreferer⟩ := hsome
    exact hreferer
  · have hone : (a.assemble t [u] .fresh).result = _ := a.result_assemble_cons u rfl
    rw [hone, List.append_nil, hresult hslash,
      (a.assembleOne_spec (Known.readFrom_fresh t) u).2.1 hslash]
  · obtain ⟨m, referred, referer, hm, -, rfl⟩ := hsound r (hreference r hr)
    obtain ⟨⟨pinned, hroot⟩, -⟩ := a.checkout.fresh_eq_ok _ _ _ hm
    exact (a.root_of_reference hroot).1
  · obtain ⟨m, referred, referer, hm, hreferred, rfl⟩ := hsound r (hreference r hr)
    obtain ⟨⟨pinned, hroot⟩, -⟩ := a.checkout.fresh_eq_ok _ _ _ hm
    obtain ⟨hinstalled, hplace⟩ := (a.root_of_reference hroot).2 v hv
    have hfile := (FileTree.readable_iff.mpr ⟨referred, hreferred⟩).hasFile
    rw [ResolvedModule.absolutePath, hplace] at hfile
    exact ⟨hinstalled, hfile⟩

theorem assemble_of_readFrom (us : List ExternalUse) (h : k.ReadFrom t) :
    ∃ os, (a.assemble t us k).result = .ok os.reduceOption ∧
      List.Forall₂ (a.Settles t) us os := by
  induction us generalizing k with
  | nil => exact ⟨[], rfl, .nil⟩
  | cons u us ih =>
    obtain ⟨os, hos, hall⟩ := ih (a.assembleOne_spec h u).1
    refine ⟨(a.assembleOne t u k).result.toOption :: os, ?_, .cons (a.settles_assembleOne h u) hall⟩
    rw [a.result_assemble_cons u hos]
    cases (a.assembleOne t u k).result <;> rfl

/-- Every use of a list is settled as if it were the only one. -/
theorem assemble_settles (t : FileTree) (us : List ExternalUse) :
    ∃ os, (a.assemble t us .fresh).result = .ok os.reduceOption ∧
      List.Forall₂ (a.Settles t) us os :=
  a.assemble_of_readFrom us (Known.readFrom_fresh t)

def twoModules : FileTree := ⟨[(["w"], .directory), (["w", "elm.json"], .file (.text "{}")),
  (["w", "src"], .directory), (["w", "src", "Main.elm"], .file (.text "module Main")),
  (["w", "src", "Util.elm"], .file (.text "module Util"))], "/w"⟩

def twoModulesAssembly : Assembly := .of "c1" "https://github.com" ⟨⟨"me", "app"⟩, "/w", .empty⟩

def useOfUtil (file : String) : ExternalUse where
  symbol := "helper"
  package := ⟨"me", "app"⟩
  module := "Util"
  region := ⟨⟨3, 1⟩, ⟨3, 7⟩⟩
  file := file

/-- A use under a path that leads to no file has no reference, unless a use under the same path
without the slash at its end comes before it. -/
theorem assemble_with_slash :
    ¬twoModules.Readable (twoModulesAssembly.refererPath (useOfUtil "src/Main.elm/")) ∧
    (twoModulesAssembly.assemble twoModules [useOfUtil "src/Main.elm/"] .fresh).result.toOption.map
      List.length = some 0 ∧
    (twoModulesAssembly.assemble twoModules [useOfUtil "src/Main.elm", useOfUtil "src/Main.elm/"]
      .fresh).result.toOption.map List.length = some 2 := by
  refine ⟨fun h => absurd h.not_endsInSlash (by decide +kernel), by decide +kernel,
    by decide +kernel⟩

end Assembly
end UsageGraph
