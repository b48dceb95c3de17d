import UsageGraph.Module.Resolution
import UsageGraph.Proofs.FileTree.Places

/-! # The memory of loaded packages goes unnoticed

A package that was loaded under one spelling of its root is used under every other one.

* `sameWay_joinRelative`: the file that is named is the file that was looked for.
* `Manifest.read_congr`: the manifests that are read under two spellings of a root differ in their
  paths only.
* `Checkout.fresh`: the file of a module when nothing has been loaded.
* `Checkout.resolve_spec`: with packages that have been loaded, the file is the same.
-/

namespace UsageGraph
open Text
set_option autoImplicit false

/-! ## Firm file names -/

theorem firm_modulePath (module : String) : Path.Firm (modulePath module) := by
  rw [modulePath, String.append_assoc]
  exact Path.firm_append (by decide) (by decide)

theorem firm_of_mem_manifestNames {name : String} (h : name ∈ manifestNames) : Path.Firm name := by
  have hall : ∀ name ∈ manifestNames, Path.Firm name := by decide
  exact hall name h

theorem leaf_joinRelative (dir : String) {path : String} (h : Path.Firm path) :
    Path.leaf (joinRelative dir path).toList = Path.leaf path.toList := by
  let keep : List Char → Bool := fun s => s ≠ [] && s ≠ ['.']
  have hlast : [Path.leaf path.toList].filter keep = [Path.leaf path.toList] := by
    rw [Path.Firm] at h
    simpa [keep] using h
  have hsplit : splitAll '/' path.toList =
      (splitAll '/' path.toList).dropLast ++ [Path.leaf path.toList] :=
    (List.dropLast_concat_getLast (splitAll_ne_nil '/' path.toList)).symm
  have hkept : (splitAll '/' dir.toList ++ splitAll '/' path.toList).filter keep =
      (splitAll '/' dir.toList ++ (splitAll '/' path.toList).dropLast).filter keep ++
        [Path.leaf path.toList] := by
    conv => lhs; rw [hsplit]
    rw [← List.append_assoc, List.filter_append, hlast]
  have hslash : ∀ s ∈ (splitAll '/' dir.toList ++ splitAll '/' path.toList).filter keep,
      '/' ∉ s := by
    intro s hs
    rcases List.mem_append.mp (List.mem_filter.mp hs).1 with hs | hs <;>
      exact notMem_of_mem_splitAll hs
  have hleaf := Path.leaf_joinChars (by rw [hkept]; exact List.concat_ne_nil _ _) hslash
  simp only [hkept, List.getLast_concat] at hleaf
  rw [joinRelative, String.toList_ofList]
  change Path.leaf (Path.joinChars (List.filter keep _)) = _
  rw [hkept, hleaf]

theorem firm_joinRelative (dir : String) {path : String} (h : Path.Firm path) :
    Path.Firm (joinRelative dir path) := by
  rw [Path.Firm, leaf_joinRelative dir h]
  exact h

theorem isAbsolute_joinRelative (dir path : String) :
    Path.isAbsolute (joinRelative dir path) = false := by
  refine Path.isAbsolute_joinChars fun s hs => ?_
  obtain ⟨hmem, hkeep⟩ := List.mem_filter.mp hs
  have hne : s ≠ [] := by
    rintro rfl
    cases hkeep
  refine ⟨hne, ?_⟩
  rcases List.mem_append.mp hmem with hmem | hmem <;> exact notMem_of_mem_splitAll hmem

/-! ## Paths below a package root -/

/-- The steps of both paths, one after the other. -/
theorem way_joinRelative (dir path : String) :
    Path.way (joinRelative dir path) = Path.way dir ++ Path.way path := by
  let keep : List Char → Bool := fun s => s ≠ [] && s ≠ ['.']
  let kept := (splitAll '/' dir.toList ++ splitAll '/' path.toList).filter keep
  have hslash : ∀ s ∈ kept, '/' ∉ s := by
    intro s hs
    rcases List.mem_append.mp (List.mem_filter.mp hs).1 with hs | hs <;>
      exact notMem_of_mem_splitAll hs
  have hkept : (splitAll '/' (joinRelative dir path).toList).filter keep = kept := by
    have htext : (joinRelative dir path).toList = Path.joinChars kept := String.toList_ofList
    by_cases hnil : kept = []
    · rw [htext, hnil]
      rfl
    · have hpieces : splitAll '/' (Path.joinChars kept) = kept := splitAll_intercalate hslash hnil
      rw [htext, hpieces, List.filter_filter]
      simp only [Bool.and_self]
      rfl
  rw [Path.way_eq_map, Path.way_eq_map, Path.way_eq_map, ← List.map_append, ← List.filter_append]
  exact congrArg _ hkept

/-- The file is named by the way on which it is looked for, unless that way leaves the package. -/
theorem sameWay_joinRelative (root : String) {dir path : String} (hdir : Path.isAbsolute dir = false)
    (hpath : Path.isAbsolute path = false) :
    Path.SameWay (Path.join root (joinRelative dir path))
      (Path.join (Path.join root dir) path) where
  isAbsolute := by
    rw [Path.isAbsolute_join (isAbsolute_joinRelative dir path), Path.isAbsolute_join hpath,
      Path.isAbsolute_join hdir]
  way := by
    rw [Path.way_join (isAbsolute_joinRelative dir path), way_joinRelative, Path.way_join hpath,
      Path.way_join hdir, List.append_assoc]

/-- The file of the module lies below the source directory. -/
def FileTree.holds (t : FileTree) (root module dir : String) : Bool :=
  t.isFile (Path.join (Path.join root dir) (modulePath module))

theorem FileTree.holds_congr (t : FileTree) {root root' : String}
    (h : Path.parts root = Path.parts root') (module : String) :
    t.holds root module = t.holds root' module := by
  funext dir
  have hfirm := firm_modulePath module
  exact FileTree.isFile_congr t (hfirm.join _) (hfirm.join _)
    (Path.parts_join_congr (Path.parts_join_congr h dir) _)

/-! ## Manifests -/

namespace Manifest
variable {t : FileTree} {root root' : String}

theorem ofDocument?_congr {path path' : String} (h : Path.parts path = Path.parts path')
    (d : Document) :
    ofDocument? path' d = (ofDocument? path d).map fun m => { m with path := path' } := by
  have hdirs : defaultDirectories path' = defaultDirectories path := by
    rw [defaultDirectories, defaultDirectories, Path.fileName?, Path.fileName?, h]
  simp only [ofDocument?, hdirs, Option.bind_eq_bind, Option.pure_def, Option.map_bind,
    Function.comp_def, Option.map_some]

theorem parse_congr {path path' content : String} (h : Path.parts path = Path.parts path')
    {m : Manifest} (hm : parse content path = .ok m) :
    parse content path' = .ok { m with path := path' } := by
  rw [parse] at hm
  rw [parse]
  cases hd : Document.parse? content with
  | none =>
    rw [hd] at hm
    cases hm
  | some d =>
    rw [hd, Option.bind_some] at hm
    rw [Option.bind_some, ofDocument?_congr h]
    cases hread : ofDocument? path d with
    | none =>
      rw [hread] at hm
      cases hm
    | some m' =>
      rw [hread] at hm
      cases hm
      rfl

theorem find?_eq (t : FileTree) (root : String) : find? t root =
    (manifestNames.find? fun name => t.isFile (Path.join root name)).map (Path.join root) := by
  rw [find?, List.find?_map]
  rfl

variable (t) in
theorem findName?_congr (h : Path.parts root = Path.parts root') :
    (manifestNames.find? fun name => t.isFile (Path.join root name)) =
      manifestNames.find? fun name => t.isFile (Path.join root' name) := by
  rw [← List.head?_filter, ← List.head?_filter]
  refine congrArg List.head? (List.filter_congr fun name hname => ?_)
  have hfirm := firm_of_mem_manifestNames hname
  exact FileTree.isFile_congr t (hfirm.join root) (hfirm.join root') (Path.parts_join_congr h name)

theorem read_eq_ok {m : Manifest} : read t root = .ok m ↔ ∃ path content,
    find? t root = some path ∧ t.readText path = .ok content ∧ parse content path = .ok m := by
  delta read
  cases find? t root with
  | none => simp
  | some path => cases hread : t.readText path <;> simp [ofIo, bind, Except.bind, hread]

/-- The manifests under two spellings of a root differ in their paths only. -/
theorem read_congr (h : Path.parts root = Path.parts root') {m : Manifest}
    (hm : read t root = .ok m) :
    ∃ path, read t root' = .ok { m with path := path } := by
  obtain ⟨path, content, hfind, hread, hparse⟩ := read_eq_ok.mp hm
  rw [find?_eq, findName?_congr t h] at hfind
  obtain ⟨name, hname, rfl⟩ := Option.map_eq_some_iff.mp hfind
  have hfirm := firm_of_mem_manifestNames (List.mem_of_find?_eq_some hname)
  have hparts := Path.parts_join_congr h name
  refine ⟨Path.join root' name, read_eq_ok.mpr ⟨_, content, ?_, ?_, parse_congr hparts hparse⟩⟩
  · rw [find?_eq, hname, Option.map_some]
  · rw [← FileTree.readText_congr t (hfirm.join root) (hfirm.join root') hparts, hread]

end Manifest

/-! ## Packages -/

/-- The modules are in the same file, under two spellings of the package root at most. -/
structure ResolvedModule.Alike (m m' : ResolvedModule) : Prop where
  packageRoot : Path.parts m.packageRoot = Path.parts m'.packageRoot
  file : m.file = m'.file

namespace Package
variable {t : FileTree} {p q : Package} {id : PackageId} {version : Option String} {root : String}

/-- The packages have the same files and look for them in the same order. -/
structure Alike (p q : Package) : Prop where
  root : Path.parts p.root = Path.parts q.root
  sourceDirectories : p.sourceDirectories = q.sourceDirectories

theorem load_eq_ok : load t id version root = .ok p ↔ ∃ m, Manifest.read t root = .ok m ∧
    p = ⟨id, version, root, m.sourceDirectories, m.path⟩ := by
  rw [load]
  cases Manifest.read t root with
  | error f => simp [Except.map]
  | ok m => simp [Except.map, eq_comm]

theorem id_of_load (h : load t id version root = .ok p) : p.id = id := by
  obtain ⟨m, -, rfl⟩ := load_eq_ok.mp h
  rfl

theorem exists_load_alike {root' : String} (h : Path.parts root = Path.parts root')
    (hp : load t id version root = .ok p) (id' : PackageId) (version' : Option String) :
    ∃ q, load t id' version' root' = .ok q ∧ p.Alike q := by
  obtain ⟨m, hm, rfl⟩ := load_eq_ok.mp hp
  obtain ⟨path, hm'⟩ := Manifest.read_congr h hm
  exact ⟨_, load_eq_ok.mpr ⟨_, hm', rfl⟩, h, rfl⟩

variable (p t) in
theorem moduleFile_eq (module : String) : p.moduleFile t module =
    match p.sourceDirectories.find? (t.holds p.root module) with
    | some dir => .ok ⟨p.root, joinRelative dir (modulePath module)⟩
    | none => .error (.moduleNotFound p.id.fullName module) := by
  have hholds : t.holds p.root module =
      fun dir => t.isFile (Path.join (Path.join p.root dir) (modulePath module)) := rfl
  rw [moduleFile, moduleFile?, hholds]
  cases p.sourceDirectories.find? fun dir =>
    t.isFile (Path.join (Path.join p.root dir) (modulePath module)) <;> rfl

theorem moduleFile_alike (h : p.Alike q) (t : FileTree) (module : String) :
    (∃ m m', p.moduleFile t module = .ok m ∧ q.moduleFile t module = .ok m' ∧ m.Alike m') ∨
    p.moduleFile t module = .error (.moduleNotFound p.id.fullName module) ∧
      q.moduleFile t module = .error (.moduleNotFound q.id.fullName module) := by
  rw [moduleFile_eq, moduleFile_eq, t.holds_congr h.root, h.sourceDirectories]
  cases q.sourceDirectories.find? (t.holds q.root module) with
  | none => exact .inr ⟨rfl, rfl⟩
  | some dir => exact .inl ⟨_, _, rfl, rfl, h.root, rfl⟩

theorem moduleFile_eq_ok {module : String} {m : ResolvedModule}
    (h : p.moduleFile t module = .ok m) : ∃ dir ∈ p.sourceDirectories,
      t.holds p.root module dir = true ∧ m = ⟨p.root, joinRelative dir (modulePath module)⟩ := by
  rw [moduleFile_eq] at h
  cases hdir : p.sourceDirectories.find? (t.holds p.root module) with
  | none =>
    rw [hdir] at h
    cases h
  | some dir =>
    rw [hdir] at h
    exact ⟨dir, List.mem_of_find?_eq_some hdir, List.find?_some hdir, (Except.ok.inj h).symm⟩

end Package

/-! ## Loaded packages -/

/-- Every package has been loaded from the tree, under some spelling of its root. -/
def LoadedPackages.ReadFrom (t : FileTree) (packages : LoadedPackages) : Prop :=
  ∀ e ∈ packages, ∃ id version root, Package.load t id version root = .ok e.2 ∧
    Path.parts root = e.1

namespace Checkout
variable {t : FileTree} {packages : LoadedPackages}

theorem loadPackage_spec (h : LoadedPackages.ReadFrom t packages) (id : PackageId)
    (version : Option String) (root : String) :
    LoadedPackages.ReadFrom t (loadPackage t id version root packages).state ∧
    ((∃ p q, (loadPackage t id version root packages).result = .ok p ∧
        Package.load t id version root = .ok q ∧ p.Alike q) ∨
      ∃ f, (loadPackage t id version root packages).result = .error f ∧
        Package.load t id version root = .error f) := by
  have hlookup : (Task.state packages).result = .ok packages := rfl
  rw [loadPackage, Task.result_bind_ok _ hlookup, Task.state_bind_ok _ hlookup]
  cases hmem : List.lookup (Path.parts root) packages with
  | some p =>
    -- The root may have been spelled in another way, and for another package.
    obtain ⟨id', version', root', hload, hroot⟩ := h _ (mem_of_lookup hmem)
    obtain ⟨q, hq, hp⟩ := Package.exists_load_alike hroot hload id version
    exact ⟨h, .inl ⟨p, q, rfl, hq, hp⟩⟩
  | none =>
    cases hload : Package.load t id version root with
    | error f => exact ⟨h, .inr ⟨f, rfl, rfl⟩⟩
    | ok p =>
      refine ⟨?_, .inl ⟨p, p, rfl, rfl, rfl, rfl⟩⟩
      exact List.forall_mem_cons.mpr ⟨⟨id, version, root, hload, rfl⟩, h⟩

/-- The file of a module when nothing has been loaded. -/
def fresh (c : Checkout) (t : FileTree) (package : PackageId) (version : Option String)
    (module : String) : Except Fault ResolvedModule := do
  let (root, pinned) ← c.root package version module
  let p ← Package.load t package pinned root
  p.moduleFile t module

section
variable (c : Checkout) (package : PackageId) (version : Option String) (module : String)

theorem result_resolve (t : FileTree) (packages : LoadedPackages) :
    (c.resolve t package version module packages).result = (do
      let (root, pinned) ← c.root package version module
      let p ← (loadPackage t package pinned root packages).result
      p.moduleFile t module) := by
  rw [resolve]
  cases c.root package version module with
  | error f => rfl
  | ok r =>
    obtain ⟨root, pinned⟩ := r
    rw [Task.result_bind_ok _ (Task.result_ofResult packages _), Task.result_bind]
    change _ = (loadPackage t package pinned root packages).result.bind (·.moduleFile t module)
    cases hp : (loadPackage t package pinned root packages).result with
    | error f =>
      rw [Task.state_ofResult, hp]
      rfl
    | ok p =>
      rw [Task.state_ofResult, hp]
      rfl

theorem state_resolve (t : FileTree) (packages : LoadedPackages) :
    (c.resolve t package version module packages).state =
      match c.root package version module with
      | .ok (root, pinned) => (loadPackage t package pinned root packages).state
      | .error _ => packages := by
  rw [resolve]
  cases c.root package version module with
  | error f => rfl
  | ok r =>
    obtain ⟨root, pinned⟩ := r
    rw [Task.state_bind_ok _ (Task.result_ofResult packages _), Task.state_bind]
    cases hp : (loadPackage t package pinned root packages).result with
    | error f =>
      rw [Task.state_ofResult, hp]
    | ok p =>
      rw [Task.state_ofResult, hp]
      rfl

/-- Packages that have been loaded change the spelling of a package root at most. -/
theorem resolve_spec (h : LoadedPackages.ReadFrom t packages) :
    LoadedPackages.ReadFrom t (c.resolve t package version module packages).state ∧
    ((∃ m m', (c.resolve t package version module packages).result = .ok m ∧
        c.fresh t package version module = .ok m' ∧ m.Alike m') ∨
      ∃ f f', (c.resolve t package version module packages).result = .error f ∧
        c.fresh t package version module = .error f') := by
  rw [state_resolve, result_resolve, fresh]
  cases c.root package version module with
  | error f => exact ⟨h, .inr ⟨f, f, rfl, rfl⟩⟩
  | ok r =>
    obtain ⟨root, pinned⟩ := r
    obtain ⟨hstate, ⟨p, q, hp, hq, halike⟩ | ⟨f, hp, hq⟩⟩ := loadPackage_spec h package pinned root
    · refine ⟨hstate, ?_⟩
      simp only [bind, Except.bind, hp, hq]
      exact (Package.moduleFile_alike halike t module).imp_right fun ⟨h, h'⟩ => ⟨_, _, h, h'⟩
    · refine ⟨hstate, .inr ⟨f, f, ?_, ?_⟩⟩ <;> simp only [bind, Except.bind, hp, hq]

theorem fresh_eq_ok {m : ResolvedModule} (h : c.fresh t package version module = .ok m) :
    (∃ pinned, c.root package version module = .ok (m.packageRoot, pinned)) ∧
      ∃ dir, m.file = joinRelative dir (modulePath module) := by
  rw [fresh] at h
  cases hroot : c.root package version module with
  | error f =>
    rw [hroot] at h
    cases h
  | ok r =>
    obtain ⟨root, pinned⟩ := r
    simp only [bind, Except.bind, hroot] at h
    cases hp : Package.load t package pinned root with
    | error f =>
      rw [hp] at h
      cases h
    | ok p =>
      rw [hp] at h
      obtain ⟨dir, -, -, rfl⟩ := Package.moduleFile_eq_ok h
      obtain ⟨m', -, rfl⟩ := Package.load_eq_ok.mp hp
      exact ⟨⟨pinned, rfl⟩, dir, rfl⟩

theorem resolve_nil (t : FileTree) :
    (c.resolve t package version module []).result = c.fresh t package version module := by
  have hload : ∀ root pinned, (loadPackage t package pinned root []).result =
      Package.load t package pinned root := by
    intro root pinned
    rw [loadPackage, Task.result_bind]
    cases hp : Package.load t package pinned root <;> rfl
  simp only [result_resolve, fresh, hload]

end

end Checkout
end UsageGraph
