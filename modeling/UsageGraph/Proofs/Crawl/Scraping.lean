import UsageGraph.Command.Compiler
import UsageGraph.Import.ReferencePass
import UsageGraph.Proofs.Crawl.Coverage
import UsageGraph.Proofs.Diagnostic.Names

/-! # Where uses come from

* `Compiler.Scrapes`: a compiler whose reports are scraped off an output. The compiler behind a
  command is one.
* `exists_report_of_mem_uses`: every use of a pass is from a report of the compiler.
* `relative_of_mem_uses`: the file of a use is a relative path if reports are scraped.
-/

namespace UsageGraph
set_option autoImplicit false

/-! ## Scraped reports -/

theorem relative_of_mem_scrape {output base : String} {u : ExternalUse}
    (h : u ∈ (scrape output base).uses) : Path.isAbsolute u.file = false := by
  obtain ⟨d, -, huse⟩ := mem_uses.mp h
  rw [file_of_use? huse]
  exact isAbsolute_relativeName d.file base

/-! ## Compilers that scrape -/

def Compiler.Scrapes {σ : Type} (c : Compiler σ) : Prop :=
  ∀ workdir file s r, (c.compile workdir file s).result = .ok r →
    ∃ output base, r = scrape output base

theorem scrapes_commandCompiler (p : Programs) (command : List String) (limit : Duration) :
    (commandCompiler p command limit).Scrapes := by
  intro workdir file t r h
  obtain ⟨base, -, h⟩ := Task.bind_eq_ok _ h
  obtain ⟨output, -, h⟩ := Task.bind_eq_ok _ h
  obtain ⟨-, -, h⟩ := Task.bind_eq_ok _ h
  exact ⟨output, base, (Except.ok.inj h).symm⟩

/-! ## Uses -/

section
variable {σ : Type} {compiler : Compiler σ} {workdir : String}

theorem Compilations.exists_compile {q last : CompileQueue} {s s' : σ}
    {runs : List (String × Except Fault Report)}
    (h : Compilations compiler workdir q s runs last s') {run : String × Except Fault Report}
    (hrun : run ∈ runs) : ∃ t, (compiler.compile workdir run.1 t).result = run.2 := by
  induction h with
  | done => cases hrun
  | next _ hresult _ ih =>
    rcases List.mem_cons.mp hrun with rfl | hrun
    · exact ⟨_, hresult⟩
    · exact ih hrun

theorem exists_report_of_mem_crawl {files : List String} {s : σ} {c : Crawl}
    (h : (crawl compiler workdir files s).result = .ok c) {u : ExternalUse} (hu : u ∈ c.uses) :
    ∃ file t r, (compiler.compile workdir file t).result = .ok r ∧ u ∈ r.uses := by
  obtain ⟨_, -, hcrawl⟩ := Task.bind_eq_ok _ h
  obtain ⟨runs, last, hruns, hresult⟩ :=
    exists_compilations compiler workdir (.ofFiles files) (compiler.clearCache workdir s).state
  rw [hresult] at hcrawl
  cases hcrawl
  rw [Crawl.uses_ofRuns] at hu
  obtain ⟨r, hr, hu⟩ := List.mem_flatMap.mp hu
  obtain ⟨⟨file, result⟩, hrun, hresult⟩ := List.mem_filterMap.mp hr
  obtain ⟨t, ht⟩ := hruns.exists_compile hrun
  cases result with
  | error f => cases hresult
  | ok r' =>
    cases hresult
    exact ⟨file, t, r, ht, hu⟩

end

namespace ReferencePass
variable {p : ReferencePass} {repo : PackageId} {workdir : String} {t : FileTree}
  {us : List ExternalUse} {u : ExternalUse}

theorem exists_report_of_mem_uses (h : (p.uses repo workdir t).result = .ok us) (hu : u ∈ us) :
    ∃ file t r, (p.compiler.compile workdir file t).result = .ok r ∧ u ∈ r.uses := by
  obtain ⟨_, -, h⟩ := Task.bind_eq_ok _ h
  obtain ⟨_, -, h⟩ := Task.bind_eq_ok _ h
  obtain ⟨c, hcrawl, h⟩ := Task.bind_eq_ok _ h
  obtain ⟨_, -, h⟩ := Task.bind_eq_ok _ h
  cases h
  exact exists_report_of_mem_crawl hcrawl hu

theorem relative_of_mem_uses (hscrapes : p.compiler.Scrapes)
    (h : (p.uses repo workdir t).result = .ok us) (hu : u ∈ us) :
    Path.isAbsolute u.file = false := by
  obtain ⟨file, t', r, hr, hu⟩ := exists_report_of_mem_uses h hu
  obtain ⟨output, base, rfl⟩ := hscrapes workdir file t' r hr
  exact relative_of_mem_scrape hu

end ReferencePass
end UsageGraph
