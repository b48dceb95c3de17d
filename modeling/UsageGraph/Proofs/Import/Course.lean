import UsageGraph.Proofs.Import.Isolation
import UsageGraph.Proofs.Package.Manifests
import UsageGraph.Proofs.Reference.Agreement

/-! # The course of a reference pass

* `ReferencePass.Refuses`, `ReferencePass.check_eq_error`: why nothing is done with a checkout.
* `ReferencePass.Call`: what a pass has the programs and the compiler do.
* `ReferencePass.Course`: the calls of a pass, and the fault that it ends with if there is one.
* `ReferencePass.run_course`: every pass takes such a course.
-/

namespace UsageGraph
set_option autoImplicit false

theorem Site.result_observe {α : Type} (look : FileTree → Except Fault α) (s : Site) :
    (onTree (Task.observe look) s).result = look s.tree := rfl

theorem Site.state_observe {α : Type} (look : FileTree → Except Fault α) (s : Site) :
    (onTree (Task.observe look) s).state = s := rfl

namespace ReferencePass
variable (p : ReferencePass)

/-! ## Before anything is done -/

def languageFault : Fault :=
  let text := p.config.compiler.languageVersion
  .config ("invalid compiler.language_version \"" ++ text ++ "\": " ++
    ((Version.defect? text).getD .empty).message)

/-- There has to be a manifest, and it has to allow the configured version of the language. -/
inductive Refuses (root : String) (t : FileTree) : Fault → Prop
  | manifest {f : Fault} : Manifest.Unread t root f → Refuses root t f
  | language : (∀ f, ¬Manifest.Unread t root f) →
      (∀ v, ¬Version.WrittenAs v p.config.compiler.languageVersion) →
      Refuses root t p.languageFault
  | rejected {m : Manifest} {v : Version} {f : Fault} : Manifest.read t root = .ok m →
      v.WrittenAs p.config.compiler.languageVersion → m.Rejects v f → Refuses root t f

section
variable {p} {root : String} {t : FileTree} {f : Fault} {v : Version}

theorem language_eq_ok : p.language = .ok v ↔ v.WrittenAs p.config.compiler.languageVersion := by
  rw [← Version.parse?_eq_some, language, Version.read]
  cases Version.parse? p.config.compiler.languageVersion <;> simp [Except.mapError]

theorem language_eq_error : p.language = .error f ↔
    (∀ v, ¬Version.WrittenAs v p.config.compiler.languageVersion) ∧ f = p.languageFault := by
  rw [← Version.parse?_eq_none, language, Version.read, languageFault]
  cases Version.parse? p.config.compiler.languageVersion <;> simp [Except.mapError, eq_comm]

theorem check_of_unread (h : Manifest.read t root = .error f) : p.check root t = .error f := by
  unfold check
  rw [h]
  rfl

theorem check_of_read {m : Manifest} (h : Manifest.read t root = .ok m) :
    p.check root t = p.language >>= m.checkLanguage := by
  unfold check
  rw [h]
  rfl

theorem check_eq_error : p.check root t = .error f ↔ p.Refuses root t f := by
  cases hread : Manifest.read t root with
  | error g =>
    have hunread := Manifest.read_eq_error.mp hread
    rw [check_of_unread hread]
    constructor
    · intro h
      cases h
      exact .manifest hunread
    · intro h
      cases h with
      | manifest hunread' =>
        rw [Manifest.read_eq_error.mpr hunread'] at hread
        cases hread
        rfl
      | language hnone => exact absurd hunread (hnone g)
      | rejected hm => rw [hread] at hm; cases hm
  | ok m =>
    have hnone : ∀ g, ¬Manifest.Unread t root g := by
      intro g hunread
      rw [Manifest.read_eq_error.mpr hunread] at hread
      cases hread
    rw [check_of_read hread]
    cases hlanguage : p.language with
    | error g =>
      obtain ⟨hversion, rfl⟩ := language_eq_error.mp hlanguage
      constructor
      · intro h
        cases h
        exact .language hnone hversion
      · intro h
        cases h with
        | manifest hunread => exact absurd hunread (hnone f)
        | language => rfl
        | rejected _ hv => exact absurd hv (hversion _)
    | ok v =>
      have hv := language_eq_ok.mp hlanguage
      change m.checkLanguage v = .error f ↔ _
      rw [Manifest.checkLanguage_eq_error]
      constructor
      · intro h
        exact .rejected hread hv h
      · intro h
        cases h with
        | manifest hunread => exact absurd hunread (hnone f)
        | language _ hversion => exact absurd hv (hversion v)
        | rejected hm hw h =>
          rw [hread] at hm
          cases hm
          rwa [hv.unique hw]

theorem check_eq_ok : p.check root t = .ok () ↔ ∀ f, ¬p.Refuses root t f := by
  simp only [← check_eq_error]
  cases p.check root t <;> simp

end

/-! ## Calls -/

inductive Call where
  | install (i : Invocation)
  | clear
  | compile (file : String)
  deriving DecidableEq, Repr

/-- The file tree that a call leaves, however it ends. -/
def Call.leave (root : String) (t : FileTree) : Call → FileTree
  | install i => (p.programs.start i t).2
  | clear => (p.compiler.clearCache root t).state
  | compile file => (p.compiler.compile root file t).state

def after (root : String) (calls : List Call) (t : FileTree) : FileTree :=
  calls.foldl (Call.leave p root) t

/-- Without a command for it, nothing is installed. -/
def installs (root cwd : String) : List Call :=
  match p.installCommand cwd root with
  | [] => []
  | program :: args => [.install ⟨root, program, args, p.config.compiler.timeout⟩]

def installed (root : String) (t : FileTree) : FileTree := p.after root (p.installs root t.cwd) t

section
variable (repo : PackageId) (root : String) (t : FileTree)

theorem state_runCommand : (runCommand p.programs root (p.installCommand t.cwd root)
    p.config.compiler.timeout t).state = p.installed root t := by
  unfold installed installs
  cases p.installCommand t.cwd root <;> rfl

theorem installed_of_none (h : p.config.compiler.installCommand = []) :
    p.installed root t = t := by
  unfold installed installs installCommand
  rw [h]
  rfl

/-- However the installation ends, the pass goes on. -/
theorem install_eq : (p.install repo root t).result = .ok () ∧
    (p.install repo root t).state = p.installed root t := by
  unfold install
  by_cases hcommand : p.config.compiler.installCommand = []
  · rw [if_pos hcommand, installed_of_none p root t hcommand]
    exact ⟨rfl, rfl⟩
  · rw [if_neg hcommand, ← state_runCommand]
    let command := runCommand p.programs root (p.installCommand t.cwd root)
      p.config.compiler.timeout
    have hstate : (Task.state t).result = .ok t := rfl
    have hattempt : (command.attempt t).result = .ok (command t).result := rfl
    rw [Task.result_bind_ok _ hstate, Task.state_bind_ok _ hstate]
    change ((command.attempt >>= _) t).result = _ ∧ ((command.attempt >>= _) t).state = _
    rw [Task.result_bind_ok _ hattempt, Task.state_bind_ok _ hattempt]
    cases (command t).result <;> exact ⟨rfl, rfl⟩

theorem after_append (calls calls' : List Call) :
    p.after root (calls ++ calls') t = p.after root calls' (p.after root calls t) :=
  List.foldl_append

variable {p root} in
theorem after_compilations {q last : CompileQueue} {t u : FileTree}
    {runs : List (String × Except Fault Report)}
    (h : Compilations p.compiler root q t runs last u) :
    u = p.after root (runs.map fun run => .compile run.1) t := by
  induction h with
  | done => rfl
  | next _ _ _ ih => exact ih

end

/-! ## The course -/

/-- The calls of a pass in their order, and its fault. Which of the calls fail is not asked, but for
the one that clears. -/
inductive Course (root : String) (t : FileTree) : List Call → Option Fault → Prop
  | refused {f : Fault} : p.Refuses root t f → Course root t [] (some f)
  | undetermined {f : Fault} : (∀ g, ¬p.Refuses root t g) →
      Undetermined (p.installed root t) root f → Course root t (p.installs root t.cwd) (some f)
  | uncleared {f : Fault} : (∀ g, ¬p.Refuses root t g) →
      (∀ g, ¬Undetermined (p.installed root t) root g) →
      (p.compiler.clearCache root (p.installed root t)).result = .error f →
      Course root t (p.installs root t.cwd ++ [.clear]) (some f)
  | complete {runs : List (String × Except Fault Report)} {last : CompileQueue} {u : FileTree} :
      (∀ g, ¬p.Refuses root t g) → (∀ g, ¬Undetermined (p.installed root t) root g) →
      (p.compiler.clearCache root (p.installed root t)).result = .ok () →
      Compilations p.compiler root (.ofFiles (walk (p.installed root t) root))
        (p.compiler.clearCache root (p.installed root t)).state runs last u →
      Course root t (p.installs root t.cwd ++ .clear :: runs.map fun run => .compile run.1) none

section
variable {p} {repo : PackageId} {root workdir commit : String} {t : FileTree} {s : Site} {f : Fault}

theorem uses_eq (p : ReferencePass) (repo : PackageId) (root : String) (t : FileTree) :
    (p.uses repo root t).result =
      (crawl p.compiler root (walk t root) t).result.map Crawl.uses ∧
    (p.uses repo root t).state = (crawl p.compiler root (walk t root) t).state := by
  have hstate : (Task.state t).result = .ok t := rfl
  have hreport : (Task.report (sourcesEvent repo (walk t root)) t).result = .ok () := rfl
  unfold uses
  rw [Task.result_bind_ok _ hstate, Task.state_bind_ok _ hstate]
  change ((Task.report _ >>= _) t).result = _ ∧ ((Task.report _ >>= _) t).state = _
  rw [Task.result_bind_ok _ hreport, Task.state_bind_ok _ hreport, Task.state_report]
  cases hcrawl : (crawl p.compiler root (walk t root) t).result with
  | error f =>
    rw [Task.result_bind_error _ hcrawl, Task.state_bind_error _ hcrawl]
    exact ⟨rfl, rfl⟩
  | ok c =>
    rw [Task.result_bind_ok _ hcrawl, Task.state_bind_ok _ hcrawl]
    exact ⟨rfl, rfl⟩

theorem assembleAll_eq (a : Assembly) (us : List ExternalUse) (s : Site) :
    (∃ rs, (assembleAll a us s).result = .ok rs) ∧ (assembleAll a us s).state.tree = s.tree :=
  ⟨a.exists_assemble us _, rfl⟩

/-- What comes after the installation. -/
def conclude (p : ReferencePass) (repo : PackageId) (root commit : String) :
    Task Site (List Reference) := do
  let installed ← Site.onTree (Task.observe fun t => exactDependencies t root)
  let us ← Site.onTree (p.uses repo root)
  assembleAll (p.assembly repo root commit installed) us

/-- The fault of a pass, and the file tree that it leaves. -/
def Ends (o : Outcome Site (List Reference)) (fault : Option Fault) (t : FileTree) : Prop :=
  o.fault? = fault ∧ o.state.tree = t

theorem Ends.of_eq {o o' : Outcome Site (List Reference)} {fault : Option Fault}
    (h : Ends o' fault t) (hresult : o.result = o'.result) (hstate : o.state = o'.state) :
    Ends o fault t := by
  unfold Ends Outcome.fault? at h ⊢
  rwa [hresult, hstate]

theorem run_of_refused (hroot : Path.absolute? s.tree.cwd workdir = some root)
    (h : p.check root s.tree = .error f) : Ends (p.run repo workdir commit s) (some f) s.tree := by
  have habsolute : (Site.onTree (FileTree.absolute workdir) s).result = .ok root :=
    FileTree.absolute_eq_ok.mpr hroot
  have hcheck : (Site.onTree (Task.observe (p.check root)) s).result = .error f := by
    rw [Site.result_observe, h]
  unfold run Ends
  rw [Outcome.fault?_eq_some, Task.result_bind_ok _ habsolute, Task.state_bind_ok _ habsolute,
    FileTree.absolute, Site.state_observe, Task.result_bind_error _ hcheck,
    Task.state_bind_error _ hcheck]
  exact ⟨rfl, rfl⟩

theorem run_of_checked (hroot : Path.absolute? s.tree.cwd workdir = some root)
    (h : p.check root s.tree = .ok ()) {fault : Option Fault} {u : FileTree}
    (hend : Ends (p.conclude repo root commit { s with tree := p.installed root s.tree }) fault u) :
    Ends (p.run repo workdir commit s) fault u := by
  have habsolute : (Site.onTree (FileTree.absolute workdir) s).result = .ok root :=
    FileTree.absolute_eq_ok.mpr hroot
  have hcheck : (Site.onTree (Task.observe (p.check root)) s).result = .ok () := by
    rw [Site.result_observe, h]
  obtain ⟨hok, htree⟩ := p.install_eq repo root s.tree
  have hinstall : (Site.onTree (p.install repo root) s).result = .ok () := hok
  have hstate : (Site.onTree (p.install repo root) s).state =
      { s with tree := p.installed root s.tree } := by
    rw [Site.onTree, Task.state_onPart, htree]
  refine hend.of_eq ?_ ?_
  · unfold run conclude
    rw [Task.result_bind_ok _ habsolute, FileTree.absolute, Site.state_observe,
      Task.result_bind_ok _ hcheck, Site.state_observe, Task.result_bind_ok _ hinstall, hstate]
  · unfold run conclude
    rw [Task.state_bind_ok _ habsolute, FileTree.absolute, Site.state_observe,
      Task.state_bind_ok _ hcheck, Site.state_observe, Task.state_bind_ok _ hinstall, hstate]

theorem conclude_of_undetermined (h : Undetermined s.tree root f) :
    Ends (p.conclude repo root commit s) (some f) s.tree := by
  have hread : (Site.onTree (Task.observe fun t => exactDependencies t root) s).result =
      .error f := by
    rw [Site.result_observe]
    exact exactDependencies_eq_error.mpr h
  unfold conclude Ends
  rw [Outcome.fault?_eq_some, Task.result_bind_error _ hread, Task.state_bind_error _ hread]
  exact ⟨rfl, rfl⟩

theorem conclude_of_determined {installed : Table String}
    (h : exactDependencies s.tree root = .ok installed) {fault : Option Fault} {u : FileTree}
    (hend : Ends ((Site.onTree (p.uses repo root) >>=
      assembleAll (p.assembly repo root commit installed)) s) fault u) :
    Ends (p.conclude repo root commit s) fault u := by
  have hread : (Site.onTree (Task.observe fun t => exactDependencies t root) s).result =
      .ok installed := by
    rw [Site.result_observe, h]
  refine hend.of_eq ?_ ?_
  · unfold conclude
    rw [Task.result_bind_ok _ hread, Site.state_observe]
  · unfold conclude
    rw [Task.state_bind_ok _ hread, Site.state_observe]

theorem conclude_of_uncleared (hinstalled : ∀ g, ¬Undetermined s.tree root g)
    (h : (p.compiler.clearCache root s.tree).result = .error f) :
    Ends (p.conclude repo root commit s) (some f) (p.compiler.clearCache root s.tree).state := by
  obtain ⟨installed, hread⟩ := exactDependencies_eq_ok.mpr hinstalled
  obtain ⟨hcrawl, hstate⟩ := crawl_of_uncleared (walk s.tree root) h
  obtain ⟨hresult, htree⟩ := p.uses_eq repo root s.tree
  rw [hcrawl] at hresult
  rw [hstate] at htree
  have huses : (Site.onTree (p.uses repo root) s).result = .error f := hresult
  refine conclude_of_determined hread ⟨?_, ?_⟩
  · rw [Outcome.fault?_eq_some, Task.result_bind_error _ huses]
  · rw [Task.state_bind_error _ huses]
    exact htree

theorem conclude_of_cleared (hinstalled : ∀ g, ¬Undetermined s.tree root g)
    (h : (p.compiler.clearCache root s.tree).result = .ok ())
    {runs : List (String × Except Fault Report)} {last : CompileQueue} {u : FileTree}
    (hruns : Compilations p.compiler root (.ofFiles (walk s.tree root))
      (p.compiler.clearCache root s.tree).state runs last u) :
    Ends (p.conclude repo root commit s) none u := by
  obtain ⟨installed, hread⟩ := exactDependencies_eq_ok.mpr hinstalled
  obtain ⟨hcrawl, hstate⟩ := crawl_of_cleared h hruns
  obtain ⟨hresult, htree⟩ := p.uses_eq repo root s.tree
  rw [hcrawl] at hresult
  rw [hstate] at htree
  have huses : (Site.onTree (p.uses repo root) s).result = .ok (Crawl.ofRuns runs).uses := hresult
  obtain ⟨hassembled, hkept⟩ := assembleAll_eq (p.assembly repo root commit installed)
    (Crawl.ofRuns runs).uses (Site.onTree (p.uses repo root) s).state
  refine conclude_of_determined hread ⟨?_, ?_⟩
  · rw [Outcome.fault?_eq_none, Task.result_bind_ok _ huses]
    exact hassembled
  · rw [Task.state_bind_ok _ huses]
    exact hkept.trans htree

/-- A pass makes the calls of its course, and ends as the course does. -/
theorem Course.ends {calls : List Call} {fault : Option Fault}
    (h : p.Course root s.tree calls fault) (hroot : Path.absolute? s.tree.cwd workdir = some root) :
    Ends (p.run repo workdir commit s) fault (p.after root calls s.tree) := by
  cases h with
  | refused hf => exact run_of_refused hroot (check_eq_error.mpr hf)
  | undetermined hcheck hf =>
    exact run_of_checked hroot (check_eq_ok.mpr hcheck) (conclude_of_undetermined hf)
  | uncleared hcheck hinstalled hclear =>
    rw [after_append]
    exact run_of_checked hroot (check_eq_ok.mpr hcheck) (conclude_of_uncleared hinstalled hclear)
  | complete hcheck hinstalled hclear hruns =>
    -- The compilations are calls as well, from the tree that the cleared one left.
    have htree := after_compilations hruns
    rw [after_append]
    refine run_of_checked hroot (check_eq_ok.mpr hcheck) ?_
    exact htree ▸ conclude_of_cleared hinstalled hclear hruns

end

theorem exists_course (root : String) (t : FileTree) :
    ∃ calls fault, p.Course root t calls fault := by
  by_cases hcheck : ∃ f, p.Refuses root t f
  · obtain ⟨f, hf⟩ := hcheck
    exact ⟨_, _, .refused hf⟩
  have hcheck := not_exists.mp hcheck
  by_cases hread : ∃ f, Undetermined (p.installed root t) root f
  · obtain ⟨f, hf⟩ := hread
    exact ⟨_, _, .undetermined hcheck hf⟩
  have hread := not_exists.mp hread
  cases hclear : (p.compiler.clearCache root (p.installed root t)).result with
  | error f => exact ⟨_, _, .uncleared hcheck hread hclear⟩
  | ok =>
    obtain ⟨runs, last, hruns, -⟩ := exists_compilations p.compiler root
      (.ofFiles (walk (p.installed root t) root))
      (p.compiler.clearCache root (p.installed root t)).state
    exact ⟨_, _, .complete hcheck hread hclear hruns⟩

/-- A pass over a checkout takes one course: it fails if and only if that course does, with the
same fault, and leaves the files that the calls of the course leave. An empty path is that of no
checkout. -/
theorem run_course (repo : PackageId) (workdir commit : String) (s : Site)
    (hworkdir : workdir ≠ "") : ∃ root, Path.absolute? s.tree.cwd workdir = some root ∧
      (∀ f, (p.run repo workdir commit s).result = .error f ↔
        ∃ calls, p.Course root s.tree calls (some f)) ∧
      ∃ calls, p.Course root s.tree calls (p.run repo workdir commit s).fault? ∧
        (p.run repo workdir commit s).state.tree = p.after root calls s.tree := by
  obtain ⟨root, hroot⟩ := Option.ne_none_iff_exists'.mp (mt Path.absolute?_eq_none.mp hworkdir)
  obtain ⟨calls, fault, hcourse⟩ := p.exists_course root s.tree
  obtain ⟨hfault, htree⟩ : Ends (p.run repo workdir commit s) fault (p.after root calls s.tree) :=
    hcourse.ends hroot
  rw [← hfault] at hcourse
  refine ⟨root, hroot, fun f => ⟨fun h => ⟨calls, ?_⟩, ?_⟩, calls, hcourse, htree⟩
  · rwa [Outcome.fault?_eq_some.mpr h] at hcourse
  · rintro ⟨calls', hcourse'⟩
    exact Outcome.fault?_eq_some.mp (hcourse'.ends hroot).1

/-- The installation takes too long, and leaves a list of versions that breaks off. -/
def cutShort : ReferencePass where
  config := .default
  programs := ⟨fun _ t => (.expired, (t.put ["w", "elm-stuff"] .directory).put
    ["w", "elm-stuff", "exact-dependencies.json"] (.file (.text "[")))⟩
  compiler := ⟨fun _ file => Task.fail (.compileFailure file ""), fun _ => return ()⟩

def oneManifest : FileTree :=
  ⟨[(["w"], .directory), (["w", "elm.json"], .file (.text "{}"))], "/w"⟩

theorem run_course_cut_short : "." ≠ "" ∧ ∃ calls, cutShort.Course "/w" oneManifest calls
    (some (.manifestInvalid (.malformed "/w/elm-stuff/exact-dependencies.json"))) := by
  have hnonempty : "." ≠ "" := by decide
  obtain ⟨root, hroot, hfails, -⟩ :=
    cutShort.run_course ⟨"me", "app"⟩ "." "c1" ⟨oneManifest, .empty⟩ hnonempty
  have habsolute : Path.absolute? oneManifest.cwd "." = some "/w" := by decide +kernel
  have hresult : (cutShort.run ⟨"me", "app"⟩ "." "c1" ⟨oneManifest, .empty⟩).result =
      .error (.manifestInvalid (.malformed "/w/elm-stuff/exact-dependencies.json")) := by
    decide +kernel
  have hsame : root = "/w" := Option.some.inj (hroot.symm.trans habsolute)
  rw [hsame] at hfails
  exact ⟨hnonempty, (hfails _).mp hresult⟩

end ReferencePass
end UsageGraph
