import UsageGraph.Proofs.Module.Resolution
import UsageGraph.Proofs.Package.Ids
import Mathlib.Data.List.Forall2

/-! # One resolution after another

Packages stay loaded from one call to the next. They are told apart by their roots alone, and the
root of an installed package says which package it is.

* `ModuleCall`, `Checkout.resolveAll`: one call after another, whether or not they fail.
* `Checkout.HasRoot`, `Checkout.Answers`: what a call gives, in terms of the files that are there.
* `SameAnswer`: the same fault, or the same file under two spellings of a root.
* `LoadedPackages.Told`: a loaded package is the one that its root tells.
* `Checkout.resolveAll_recalls`: each call gives what it would give with nothing loaded.
-/

namespace UsageGraph
set_option autoImplicit false

/-! ## Calls -/

structure ModuleCall where
  package : PackageId
  version : Option String
  module : String
  deriving DecidableEq, Repr

namespace Checkout

def call (c : Checkout) (t : FileTree) (x : ModuleCall) : Task LoadedPackages ResolvedModule :=
  c.resolve t x.package x.version x.module

/-- What each of the calls gives. A call that fails does not keep the next one from being made. -/
def resolveAll (c : Checkout) (t : FileTree) :
    List ModuleCall → Task LoadedPackages (List (Except Fault ResolvedModule))
  | [] => return []
  | x :: xs => do
    let r ← (c.call t x).attempt
    let rs ← c.resolveAll t xs
    return r :: rs

/-! ## Answers -/

/-- Where a call looks for its package: the repository itself in its own tree, whatever version is
given, and any other package where the version that is given is installed, or else the version that
the repository uses. -/
inductive HasRoot (c : Checkout) (x : ModuleCall) : String → Prop where
  | own (h : x.package = c.current) : HasRoot c x c.workdir
  | given {v : String} (h : x.package ≠ c.current) (hv : x.version = some v) :
    HasRoot c x (c.packageRoot x.package v)
  | installed {v : String} (h : x.package ≠ c.current) (hv : x.version = none)
    (hinstalled : c.installedVersion? x.package = some v) : HasRoot c x (c.packageRoot x.package v)

/-- What a call gives. -/
structure Answers (c : Checkout) (t : FileTree) (x : ModuleCall)
    (r : Except Fault ResolvedModule) : Prop where
  uninstalled : x.package ≠ c.current → x.version = none → c.installedVersion? x.package = none →
    r = .error (.moduleNotFound x.package.fullName x.module)
  unreadable : ∀ root f, c.HasRoot x root → Manifest.read t root = .error f → r = .error f
  /-- The first source directory that holds the file counts. -/
  found : ∀ root m before dir after, c.HasRoot x root → Manifest.read t root = .ok m →
    m.sourceDirectories = before ++ dir :: after → (∀ d ∈ before, t.holds root x.module d = false) →
    t.holds root x.module dir = true →
    ∃ file, r = .ok file ∧ Path.parts file.packageRoot = Path.parts root ∧
      file.file = joinRelative dir (modulePath x.module)
  missing : ∀ root m, c.HasRoot x root → Manifest.read t root = .ok m →
    (r = .error (.moduleNotFound x.package.fullName x.module) ↔
      ∀ dir ∈ m.sourceDirectories, t.holds root x.module dir = false)

end Checkout

/-- The same fault, or the same file of the same package, under two spellings of its root at
most. -/
inductive SameAnswer : Except Fault ResolvedModule → Except Fault ResolvedModule → Prop where
  | ok {m m' : ResolvedModule} (h : m.Alike m') : SameAnswer (.ok m) (.ok m')
  | error (f : Fault) : SameAnswer (.error f) (.error f)

theorem SameAnswer.error_iff {r r' : Except Fault ResolvedModule} (h : SameAnswer r r') (f : Fault) :
    r = .error f ↔ r' = .error f := by
  cases h with
  | ok h => simp
  | error f => rfl

theorem SameAnswer.answers {c : Checkout} {t : FileTree} {x : ModuleCall}
    {r r' : Except Fault ResolvedModule} (h : SameAnswer r r') (hr : c.Answers t x r') :
    c.Answers t x r where
  uninstalled hother hv hi := (h.error_iff _).mpr (hr.uninstalled hother hv hi)
  unreadable root f hroot hread := (h.error_iff f).mpr (hr.unreadable root f hroot hread)
  found root m before dir after hroot hread hdirs hbefore hdir := by
    obtain ⟨file, rfl, hparts, hfile⟩ := hr.found root m before dir after hroot hread hdirs hbefore hdir
    cases h with
    | ok h => exact ⟨_, rfl, h.packageRoot.trans hparts, h.file.trans hfile⟩
  missing root m hroot hread := (h.error_iff _).trans (hr.missing root m hroot hread)

namespace Checkout
variable {c : Checkout} {t : FileTree} {x : ModuleCall} {root : String}

theorem root_eq_ok {pinned : Option String}
    (h : c.root x.package x.version x.module = .ok (root, pinned)) : c.HasRoot x root := by
  rw [Checkout.root] at h
  split at h
  · next hown =>
    cases h
    exact .own hown
  · next hother =>
    cases hv : x.version with
    | some v =>
      rw [hv] at h
      cases h
      exact .given hother hv
    | none =>
      cases hi : c.installedVersion? x.package with
      | none =>
        rw [hv, hi] at h
        cases h
      | some v =>
        rw [hv, hi] at h
        cases h
        exact .installed hother hv hi

theorem HasRoot.root_eq (h : c.HasRoot x root) :
    ∃ pinned, c.root x.package x.version x.module = .ok (root, pinned) := by
  cases h with
  | own h => exact ⟨none, if_pos h⟩
  | given h hv => exact ⟨_, by rw [Checkout.root, if_neg h, hv]; rfl⟩
  | installed h hv hi => exact ⟨_, by rw [Checkout.root, if_neg h, hv, hi]; rfl⟩

theorem fresh_of_unread {f : Fault} (h : c.HasRoot x root) (hread : Manifest.read t root = .error f) :
    c.fresh t x.package x.version x.module = .error f := by
  obtain ⟨pinned, hroot⟩ := h.root_eq
  simp only [fresh, hroot, Package.load, hread, bind, Except.bind, Except.map]

theorem fresh_of_read {m : Manifest} (h : c.HasRoot x root) (hread : Manifest.read t root = .ok m) :
    c.fresh t x.package x.version x.module =
      match m.sourceDirectories.find? (t.holds root x.module) with
      | some dir => .ok ⟨root, joinRelative dir (modulePath x.module)⟩
      | none => .error (.moduleNotFound x.package.fullName x.module) := by
  obtain ⟨pinned, hroot⟩ := h.root_eq
  have hload : Package.load t x.package pinned root =
      .ok ⟨x.package, pinned, root, m.sourceDirectories, m.path⟩ :=
    Package.load_eq_ok.mpr ⟨m, hread, rfl⟩
  have hfresh : c.fresh t x.package x.version x.module =
      Package.moduleFile ⟨x.package, pinned, root, m.sourceDirectories, m.path⟩ t x.module := by
    simp only [fresh, hroot, hload, bind, Except.bind]
  exact hfresh.trans (Package.moduleFile_eq t _ x.module)

theorem answers_fresh (c : Checkout) (t : FileTree) (x : ModuleCall) :
    c.Answers t x (c.fresh t x.package x.version x.module) where
  uninstalled hother hv hi := by
    have hroot : c.root x.package x.version x.module =
        .error (.moduleNotFound x.package.fullName x.module) := by
      rw [Checkout.root, if_neg hother, hv, hi]
      rfl
    simp only [fresh, hroot, bind, Except.bind]
  unreadable root f hroot hread := fresh_of_unread hroot hread
  found root m before dir after hroot hread hdirs hbefore hdir := by
    have hfirst : m.sourceDirectories.find? (t.holds root x.module) = some dir := by
      have hnone : before.find? (t.holds root x.module) = none :=
        List.find?_eq_none.mpr fun d hd => by simp [hbefore d hd]
      rw [hdirs, List.find?_append, hnone, Option.none_or, List.find?_cons_of_pos hdir]
    refine ⟨⟨root, joinRelative dir (modulePath x.module)⟩, ?_, rfl, rfl⟩
    rw [fresh_of_read hroot hread, hfirst]
  missing root m hroot hread := by
    rw [fresh_of_read hroot hread]
    cases hfirst : m.sourceDirectories.find? (t.holds root x.module) with
    | none => simpa using hfirst
    | some dir =>
      have hdir : t.holds root x.module dir = true := List.find?_some hfirst
      have hmem : dir ∈ m.sourceDirectories := List.mem_of_find?_eq_some hfirst
      simp only [reduceCtorEq, false_iff]
      intro hnone
      rw [hnone dir hmem] at hdir
      cases hdir

/-! ## Which package a root tells -/

/-- The components of the root of a package: the repository itself, or another one at a version. -/
inductive Tells (c : Checkout) : List Path.Part → PackageId → Prop where
  | own : Tells c (Path.parts c.workdir) c.current
  | installed {id : PackageId} {v : String} (h : id ≠ c.current) (hid : id.Ordinary)
    (hv : Path.isAbsolute v = false) : Tells c (Path.parts (c.packageRoot id v)) id

theorem parts_packageRoot {id : PackageId} {v : String} (hid : id.Ordinary)
    (hv : Path.isAbsolute v = false) :
    Path.parts (c.packageRoot id v) = Path.parts c.workdir ++ .name buildDir.toList ::
      .name packagesDir.toList :: .name id.owner.toList :: .name id.name.toList :: Path.way v := by
  have hbuild : Path.Plain buildDir := by decide +kernel
  have hpackages : Path.Plain packagesDir := by decide +kernel
  have hname : ∀ base, Path.join base id.name ≠ "" := by
    intro base hempty
    have hparts := Path.parts_join_of_plain hid.2 base
    rw [hempty] at hparts
    exact List.cons_ne_nil _ _ (List.append_eq_nil_iff.mp hparts.symm).2
  rw [packageRoot]
  simp only [List.foldl_cons, List.foldl_nil]
  rw [Path.parts_join hv (hname _), Path.parts_join_of_plain hid.2, Path.parts_join_of_plain hid.1,
    Path.parts_join_of_plain hpackages, Path.parts_join_of_plain hbuild]
  simp only [List.append_assoc, List.cons_append, List.nil_append]

/-- A root tells one package only. -/
theorem Tells.unique {key : List Path.Part} {id id' : PackageId} (h : c.Tells key id)
    (h' : c.Tells key id') : id = id' := by
  -- What stands behind the working directory is empty for the repository alone.
  have hbehind : ∀ {key id}, c.Tells key id →
      (key = Path.parts c.workdir ∧ id = c.current) ∨
      ∃ ws, key = Path.parts c.workdir ++ .name buildDir.toList :: .name packagesDir.toList ::
        .name id.owner.toList :: .name id.name.toList :: ws := by
    intro key id h
    cases h with
    | own => exact .inl ⟨rfl, rfl⟩
    | installed h hid hv => exact .inr ⟨_, parts_packageRoot hid hv⟩
  rcases hbehind h with ⟨rfl, rfl⟩ | ⟨ws, rfl⟩
  · rcases hbehind h' with ⟨-, rfl⟩ | ⟨ws, hws⟩
    · rfl
    · cases List.self_eq_append_right.mp hws
  · rcases hbehind h' with ⟨hws, -⟩ | ⟨ws', hws⟩
    · cases List.append_right_eq_self.mp hws
    · obtain ⟨owner, name⟩ := id
      obtain ⟨owner', name'⟩ := id'
      have hparts := List.append_cancel_left hws
      simp only [List.cons.injEq, Path.Part.name.injEq, true_and] at hparts
      rw [String.toList_injective hparts.1, String.toList_injective hparts.2.1]

end Checkout

/-- Each package is the one that its root tells. -/
def LoadedPackages.Told (c : Checkout) (packages : LoadedPackages) : Prop :=
  ∀ e ∈ packages, c.Tells e.1 e.2.id

/-- The parts of the package id are names of directories, and the version is no absolute path. -/
structure ModuleCall.Ordinary (x : ModuleCall) : Prop where
  package : x.package.Ordinary
  version : ∀ v, x.version = some v → Path.isAbsolute v = false

/-! ## One call -/

namespace Checkout
variable {c : Checkout} {t : FileTree} {packages : LoadedPackages} {x : ModuleCall} {root : String}

theorem told_loadPackage {id : PackageId} (version : Option String)
    (h : LoadedPackages.Told c packages) (hroot : c.Tells (Path.parts root) id) :
    LoadedPackages.Told c (loadPackage t id version root packages).state ∧
      ∀ p, (loadPackage t id version root packages).result = .ok p → p.id = id := by
  have hlookup : (Task.state packages).result = .ok packages := rfl
  rw [loadPackage, Task.result_bind_ok _ hlookup, Task.state_bind_ok _ hlookup]
  cases hmem : List.lookup (Path.parts root) packages with
  | some p =>
    have hid : p.id = id := (h _ (mem_of_lookup hmem)).unique hroot
    exact ⟨h, fun q hq => Except.ok.inj hq ▸ hid⟩
  | none =>
    cases hload : Package.load t id version root with
    | error f =>
      refine ⟨h, fun q hq => ?_⟩
      cases hq
    | ok p =>
      have hid : p.id = id := Package.id_of_load hload
      refine ⟨?_, fun q hq => Except.ok.inj hq ▸ hid⟩
      exact List.forall_mem_cons.mpr ⟨hid.symm ▸ hroot, h⟩

section
variable
  (hinstalled : ∀ package v, c.installedVersion? package = some v → Path.isAbsolute v = false)
include hinstalled

theorem HasRoot.tells (h : c.HasRoot x root) (hx : x.Ordinary) :
    c.Tells (Path.parts root) x.package := by
  cases h with
  | own h =>
    rw [h]
    exact .own
  | given h hv => exact .installed h hx.package (hx.version _ hv)
  | installed h hv hi => exact .installed h hx.package (hinstalled _ _ hi)

/-- A call gives what it gives with nothing loaded, and what it loads keeps the packages in order. -/
theorem call_same (hread : LoadedPackages.ReadFrom t packages)
    (htold : LoadedPackages.Told c packages) (hx : x.Ordinary) :
    LoadedPackages.ReadFrom t (c.call t x packages).state ∧
      LoadedPackages.Told c (c.call t x packages).state ∧
      SameAnswer (c.call t x packages).result (c.fresh t x.package x.version x.module) := by
  rw [call, state_resolve, result_resolve, fresh]
  cases hroot : c.root x.package x.version x.module with
  | error f => exact ⟨hread, htold, .error f⟩
  | ok r =>
    obtain ⟨root, pinned⟩ := r
    have htells := (root_eq_ok hroot).tells hinstalled hx
    obtain ⟨htold', hid⟩ := told_loadPackage (t := t) pinned htold htells
    obtain ⟨hread', ⟨p, q, hp, hq, halike⟩ | ⟨f, hp, hq⟩⟩ :=
      loadPackage_spec hread x.package pinned root
    · refine ⟨hread', htold', ?_⟩
      simp only [bind, Except.bind, hp, hq]
      rcases Package.moduleFile_alike halike t x.module with ⟨m, m', hm, hm', hmm⟩ | ⟨hm, hm'⟩
      · rw [hm, hm']
        exact .ok hmm
      · rw [hm, hm', hid p hp, Package.id_of_load hq]
        exact .error _
    · refine ⟨hread', htold', ?_⟩
      simp only [bind, Except.bind, hp, hq]
      exact .error f

/-! ## All calls -/

theorem exists_resolveAll {calls : List ModuleCall} (hread : LoadedPackages.ReadFrom t packages)
    (htold : LoadedPackages.Told c packages) (hcalls : ∀ x ∈ calls, x.Ordinary) :
    ∃ rs, (c.resolveAll t calls packages).result = .ok rs ∧
      List.Forall₂ (fun x r => SameAnswer r (c.fresh t x.package x.version x.module)) calls rs := by
  induction calls generalizing packages with
  | nil => exact ⟨[], rfl, .nil⟩
  | cons x xs ih =>
    obtain ⟨hx, hxs⟩ := List.forall_mem_cons.mp hcalls
    obtain ⟨hread', htold', hsame⟩ := call_same hinstalled hread htold hx
    obtain ⟨rs, hrs, hall⟩ := ih hread' htold' hxs
    refine ⟨(c.call t x packages).result :: rs, ?_, .cons hsame hall⟩
    rw [resolveAll, Task.result_bind_ok _ (Task.result_attempt packages _), Task.state_attempt,
      Task.result_bind_ok _ hrs]
    rfl

/-- Each of a sequence of calls gives what it would give with nothing loaded: the module is not
found if the package is not installed, the manifest fails if it cannot be read, and otherwise the
first source directory with the file counts. -/
theorem resolveAll_recalls {calls : List ModuleCall} (hcalls : ∀ x ∈ calls, x.Ordinary) :
    ∃ rs, (c.resolveAll t calls []).result = .ok rs ∧
      List.Forall₂ (fun x r => SameAnswer r (c.call t x []).result ∧ c.Answers t x r) calls rs := by
  obtain ⟨rs, hrs, hall⟩ := @exists_resolveAll c t [] hinstalled calls nofun nofun hcalls
  refine ⟨rs, hrs, hall.imp fun x r hsame => ⟨?_, hsame.answers (answers_fresh c t x)⟩⟩
  rw [call, resolve_nil]
  exact hsame

end

def borrower : Checkout := ⟨⟨"me", "app"⟩, "/w", Table.empty.insert "a/b" "1"⟩

/-- A repository with one installed package. -/
def borrowed : FileTree := ⟨[(["w"], .directory),
  (["w", "elm.json"], .file (.text "\x7b\"source-directories\": [\"src\", \"lib\"]\x7d")),
  (["w", "src"], .directory), (["w", "src", "M.elm"], .file (.text "")),
  (["w", "lib"], .directory), (["w", "lib", "M.elm"], .file (.text "")),
  (["w", "elm-stuff"], .directory), (["w", "elm-stuff", "packages"], .directory),
  (["w", "elm-stuff", "packages", "a"], .directory),
  (["w", "elm-stuff", "packages", "a", "b"], .directory),
  (["w", "elm-stuff", "packages", "a", "b", "1"], .directory),
  (["w", "elm-stuff", "packages", "a", "b", "1", "elm.json"], .file (.text "{}")),
  (["w", "elm-stuff", "packages", "a", "b", "1", "src"], .directory),
  (["w", "elm-stuff", "packages", "a", "b", "1", "src", "N.elm"], .file (.text ""))], "/"⟩

/-- The second call finds what the first one has loaded under another spelling. -/
def borrowings : List ModuleCall := [⟨⟨"a", "b"⟩, some "1/", "N"⟩, ⟨⟨"a", "b"⟩, none, "N"⟩,
  ⟨⟨"a", "b"⟩, none, "M"⟩, ⟨⟨"a", "b"⟩, some "2", "N"⟩, ⟨⟨"me", "app"⟩, some "1", "M"⟩,
  ⟨⟨"a", "c"⟩, none, "N"⟩]

theorem resolveAll_recalls_borrowings :
    ∃ rs, (borrower.resolveAll borrowed borrowings []).result = .ok rs ∧
      List.Forall₂ (fun x r => SameAnswer r (borrower.call borrowed x []).result ∧
        borrower.Answers borrowed x r) borrowings rs ∧
      rs = [.ok ⟨"/w/elm-stuff/packages/a/b/1/", "src/N.elm"⟩,
        .ok ⟨"/w/elm-stuff/packages/a/b/1/", "src/N.elm"⟩, .error (.moduleNotFound "a/b" "M"),
        .error (.manifestMissing
          "no elm-package.json or elm.json in /w/elm-stuff/packages/a/b/2"),
        .ok ⟨"/w", "src/M.elm"⟩, .error (.moduleNotFound "a/c" "N")] := by
  have hcalls : ∀ x ∈ borrowings, x.Ordinary := by
    have hpackages : ∀ x ∈ borrowings, x.package.Ordinary := by decide +kernel
    have hversions : ∀ x ∈ borrowings, ∀ v ∈ x.version, Path.isAbsolute v = false := by
      decide +kernel
    exact fun x hx => ⟨hpackages x hx, hversions x hx⟩
  have hinstalled : ∀ package v, borrower.installedVersion? package = some v →
      Path.isAbsolute v = false := by
    intro package v hv
    rw [installedVersion?, borrower, Table.get?_insert, Table.get?_empty] at hv
    split at hv
    · cases hv
      decide
    · cases hv
  obtain ⟨rs, hrs, hall⟩ := resolveAll_recalls (t := borrowed) hinstalled hcalls
  refine ⟨rs, hrs, hall, Except.ok.inj (hrs.symm.trans ?_)⟩
  decide +kernel

/-- A version that is an absolute path can lead to the tree of the repository. A call that fails
there then names whichever package was loaded first. -/
theorem call_at_absolute_version :
    (borrower.resolveAll borrowed [⟨⟨"me", "app"⟩, none, "N"⟩, ⟨⟨"a", "c"⟩, some "/w", "N"⟩]
      []).result = .ok [.error (.moduleNotFound "me/app" "N"),
        .error (.moduleNotFound "me/app" "N")] ∧
    (borrower.call borrowed ⟨⟨"a", "c"⟩, some "/w", "N"⟩ []).result =
      .error (.moduleNotFound "a/c" "N") := by
  refine ⟨by decide +kernel, by decide +kernel⟩

end Checkout
end UsageGraph
