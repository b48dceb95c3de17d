import UsageGraph.Crawl.Run
import UsageGraph.Proofs.Crawl.Queue

/-! # What a crawl covers

* `Compilations`: the compilations that empty a queue, each from the state that the one before it
  reached, with the queue and the state in which they end.
* `exists_compilations`: a crawl ends well with such compilations, whatever the compiler does.
* `Compilations.notMem_iff`: a file is left out if and only if a success before its turn names it.
* `crawl_coverage`: what a crawl compiles, fails on, finds and resolves.
-/

namespace UsageGraph
set_option autoImplicit false

section
variable {σ : Type} (compiler : Compiler σ) (workdir : String)

/-! ## Compilations -/

inductive Compilations : CompileQueue → σ → List (String × Except Fault Report) →
    CompileQueue → σ → Prop
  | done {q : CompileQueue} {s : σ} : q.pop? = none → Compilations q s [] q s
  | next {q rest last : CompileQueue} {s s' : σ} {file : String} {result : Except Fault Report}
      {runs : List (String × Except Fault Report)} :
      q.pop? = some (file, rest) → (compiler.compile workdir file s).result = result →
      Compilations (rest.resolve (covered file result)) (compiler.compile workdir file s).state
        runs last s' →
      Compilations q s ((file, result) :: runs) last s'

/-- What some compilations amount to. -/
def Crawl.ofRuns (runs : List (String × Except Fault Report)) : Crawl :=
  runs.foldr (fun run later => later.cons run.1 run.2) .empty

theorem crawlQueue_of_none {q : CompileQueue} (h : q.pop? = none) :
    crawlQueue compiler workdir q = return .empty := by
  rw [crawlQueue]
  split
  · rfl
  · next h' => rw [h] at h'; cases h'

theorem crawlQueue_of_some {q rest : CompileQueue} {file : String}
    (h : q.pop? = some (file, rest)) : crawlQueue compiler workdir q = do
      let result ← (compiler.compile workdir file).attempt
      Task.report (compileEvent file result)
      let later ← crawlQueue compiler workdir (rest.resolve (covered file result))
      return later.cons file result := by
  rw [crawlQueue]
  split
  · next h' => rw [h] at h'; cases h'
  · next h' => rw [h] at h'; cases h'; rfl

section
variable {compiler workdir} {q rest : CompileQueue} {s : σ} {file : String}
  {result : Except Fault Report}

theorem crawlQueue_next (hpop : q.pop? = some (file, rest))
    (hresult : (compiler.compile workdir file s).result = result) {later : Crawl}
    (hlater : (crawlQueue compiler workdir (rest.resolve (covered file result))
      (compiler.compile workdir file s).state).result = .ok later) :
    (crawlQueue compiler workdir q s).result = .ok (later.cons file result) ∧
      (crawlQueue compiler workdir q s).state =
        (crawlQueue compiler workdir (rest.resolve (covered file result))
          (compiler.compile workdir file s).state).state := by
  have hattempt : ((compiler.compile workdir file).attempt s).result = .ok result :=
    (Task.result_attempt s _).trans (congrArg Except.ok hresult)
  rw [crawlQueue_of_some compiler workdir hpop, Task.result_bind_ok _ hattempt,
    Task.state_bind_ok _ hattempt, Task.result_bind_ok _ (Task.result_report _ _),
    Task.state_bind_ok _ (Task.result_report _ _), Task.state_report, Task.state_attempt,
    Task.result_bind_ok _ hlater, Task.state_bind_ok _ hlater]
  exact ⟨rfl, rfl⟩

/-- A crawl makes no other compilations. -/
theorem Compilations.crawlQueue_eq {last : CompileQueue} {s' : σ}
    {runs : List (String × Except Fault Report)}
    (h : Compilations compiler workdir q s runs last s') :
    (crawlQueue compiler workdir q s).result = .ok (.ofRuns runs) ∧
      (crawlQueue compiler workdir q s).state = s' := by
  induction h with
  | done hnone =>
    rw [crawlQueue_of_none compiler workdir hnone]
    exact ⟨rfl, rfl⟩
  | next hpop hresult _ ih =>
    obtain ⟨hok, hstate⟩ := crawlQueue_next hpop hresult ih.1
    exact ⟨hok, hstate.trans ih.2⟩

end

/-- Whatever the compiler does, a crawl comes to its end. -/
theorem exists_compilations (q : CompileQueue) (s : σ) : ∃ runs last,
    Compilations compiler workdir q s runs last (crawlQueue compiler workdir q s).state ∧
      (crawlQueue compiler workdir q s).result = .ok (.ofRuns runs) := by
  induction q using crawlQueue.induct generalizing s with
  | case1 q h =>
    rw [crawlQueue_of_none compiler workdir h]
    exact ⟨[], q, .done h, rfl⟩
  | case2 q file rest h ih =>
    obtain ⟨runs, last, hruns, hlater⟩ := ih (compiler.compile workdir file s).result
      (compiler.compile workdir file s).state
    obtain ⟨hok, hstate⟩ := crawlQueue_next h rfl hlater
    refine ⟨(file, (compiler.compile workdir file s).result) :: runs, last, .next h rfl ?_, hok⟩
    rw [hstate]
    exact hruns

section
variable {compiler workdir} {files : List String} {s : σ}

variable (files) in
theorem crawl_of_uncleared {f : Fault} (h : (compiler.clearCache workdir s).result = .error f) :
    (crawl compiler workdir files s).result = .error f ∧
      (crawl compiler workdir files s).state = (compiler.clearCache workdir s).state :=
  ⟨Task.result_bind_error _ h, Task.state_bind_error _ h⟩

theorem crawl_of_cleared (h : (compiler.clearCache workdir s).result = .ok ())
    {last : CompileQueue} {s' : σ} {runs : List (String × Except Fault Report)}
    (hruns : Compilations compiler workdir (.ofFiles files) (compiler.clearCache workdir s).state
      runs last s') :
    (crawl compiler workdir files s).result = .ok (.ofRuns runs) ∧
      (crawl compiler workdir files s).state = s' := by
  rw [crawl, Task.result_bind_ok _ h, Task.state_bind_ok _ h]
  exact hruns.crawlQueue_eq

end

/-! ## Results -/

namespace Crawl
variable (runs : List (String × Except Fault Report))

theorem compiled_ofRuns : (ofRuns runs).compiled = runs.map Prod.fst := by
  induction runs with
  | nil => rfl
  | cons run runs ih =>
    obtain ⟨file, result⟩ := run
    cases result <;> exact congrArg _ ih

theorem failed_ofRuns :
    (ofRuns runs).failed = (runs.filter fun run => !run.2.isOk).map Prod.fst := by
  induction runs with
  | nil => rfl
  | cons run runs ih =>
    obtain ⟨file, result⟩ := run
    cases result with
    | ok r => exact ih
    | error f => exact congrArg _ ih

theorem uses_ofRuns :
    (ofRuns runs).uses = (runs.filterMap fun run => run.2.toOption).flatMap Report.uses := by
  induction runs with
  | nil => rfl
  | cons run runs ih =>
    obtain ⟨file, result⟩ := run
    cases result with
    | ok r => exact congrArg _ ih
    | error f => exact ih

end Crawl

/-! ## Coverage -/

namespace Compilations
variable {compiler workdir} {q last : CompileQueue} {s s' : σ}
  {runs : List (String × Except Fault Report)}

theorem sublist_pending (h : Compilations compiler workdir q s runs last s') :
    (runs.map Prod.fst).Sublist q.pending := by
  induction h with
  | done => exact List.nil_sublist _
  | next hpop _ _ ih =>
    rw [(CompileQueue.pop?_eq_some hpop).1, List.map_cons]
    exact (ih.trans List.filter_sublist).cons_cons _

theorem resolved_eq (h : Compilations compiler workdir q s runs last s') :
    last.resolved = q.resolved ++ runs.flatMap fun run => covered run.1 run.2 := by
  induction h with
  | done => simp
  | next hpop _ _ ih =>
    rw [ih, CompileQueue.resolve, (CompileQueue.pop?_eq_some hpop).2, List.flatMap_cons,
      List.append_assoc]

theorem mem_covered {file g : String} {result : Except Fault Report} :
    file ∈ covered g result ↔ file = g ∨ ∃ r, result = .ok r ∧ file ∈ r.files := by
  cases result with
  | ok r => simp [covered, or_comm]
  | error f => simp [covered]

/-- A file is left out if and only if a success before its turn names it. -/
theorem notMem_iff (h : Compilations compiler workdir q s runs last s') (hq : q.Consistent)
    {file : String} (hfile : file ∈ q.pending) : file ∉ runs.map Prod.fst ↔
      ∃ g r, (g, .ok r) ∈ runs ∧ file ∈ r.files ∧ q.Before g file := by
  induction h with
  | done hnone =>
    rw [CompileQueue.pop?_eq_none.mp hnone] at hfile
    cases hfile
  | @next q rest last s s' next result runs hpop hresult hruns ih =>
    obtain ⟨hrest, hnext⟩ := hq.pop hpop
    have hlater := CompileQueue.pending_resolve hrest (covered next result)
    rw [(CompileQueue.pop?_eq_some hpop).1, List.mem_cons] at hfile
    rcases hfile with rfl | hfile
    · -- The next file is compiled, and none has its turn before it.
      simp [CompileQueue.not_before_next hq hpop]
    have hne : file ≠ next := fun he => hnext (he ▸ hfile)
    by_cases hcovered : file ∈ covered next result
    · -- It leaves the queue now.
      obtain ⟨r, rfl, hr⟩ := (mem_covered.mp hcovered).resolve_left hne
      have hgone : file ∉ runs.map Prod.fst := by
        intro hmem
        have hleft := hruns.sublist_pending.subset hmem
        rw [hlater, List.mem_filter] at hleft
        exact of_decide_eq_true hleft.2 hcovered
      exact iff_of_true (by simp [hne, hgone])
        ⟨next, r, List.mem_cons_self, hr, CompileQueue.before_of_next hpop hfile⟩
    · -- It stays, and so does every file that is compiled before it.
      have hstays : file ∈ (rest.resolve (covered next result)).pending := by
        rw [hlater, List.mem_filter]
        exact ⟨hfile, decide_eq_true hcovered⟩
      have hturn : ∀ g r, (g, .ok r) ∈ runs →
          ((rest.resolve (covered next result)).Before g file ↔ q.Before g file) := by
        intro g r hmem
        have hg := hruns.sublist_pending.subset (List.mem_map_of_mem hmem)
        have hgne : g ≠ next := by
          rintro rfl
          rw [hlater, List.mem_filter] at hg
          exact hnext hg.1
        rw [CompileQueue.before_resolve hrest hg hstays,
          CompileQueue.before_iff_of_ne hpop hgne]
      rw [List.map_cons, List.mem_cons, not_or, and_iff_right hne, ih (hrest.resolve _) hstays]
      constructor
      · rintro ⟨g, r, hmem, hr, hbefore⟩
        exact ⟨g, r, List.mem_cons_of_mem _ hmem, hr, (hturn g r hmem).mp hbefore⟩
      · rintro ⟨g, r, hmem, hr, hbefore⟩
        rcases List.mem_cons.mp hmem with he | hmem
        · cases he
          exact absurd (mem_covered.mpr (.inr ⟨r, rfl, hr⟩)) hcovered
        · exact ⟨g, r, hmem, hr, (hturn g r hmem).mpr hbefore⟩

end Compilations

/-! ## Crawls -/

/-- Once the artifacts are cleared, a crawl compiles every file at most once and in the order of
the queue, leaves out a file only for a success before its turn that names it, notes the files that
failed and the uses that were reported, and resolves by a failure no file but its own. -/
theorem crawl_coverage {s : σ} (files : List String)
    (h : (compiler.clearCache workdir s).result = .ok ()) :
    ∃ c runs last,
      (crawl compiler workdir files s).result = .ok c ∧
      Compilations compiler workdir (.ofFiles files) (compiler.clearCache workdir s).state runs
        last (crawl compiler workdir files s).state ∧
      c.compiled = runs.map Prod.fst ∧ c.compiled.Nodup ∧
      c.compiled.Sublist (CompileQueue.ofFiles files).pending ∧
      (∀ file ∈ files, file ∉ c.compiled ↔ ∃ g r, (g, .ok r) ∈ runs ∧ file ∈ r.files ∧
        (CompileQueue.ofFiles files).Before g file) ∧
      c.failed = (runs.filter fun run => !run.2.isOk).map Prod.fst ∧
      c.uses = (runs.filterMap fun run => run.2.toOption).flatMap Report.uses ∧
      last.resolved = runs.flatMap fun run => match run.2 with
        | .ok r => r.files ++ [run.1]
        | .error _ => [run.1] := by
  have hq := CompileQueue.consistent_ofFiles files
  obtain ⟨runs, last, hruns, hresult⟩ := exists_compilations compiler workdir (.ofFiles files)
    (compiler.clearCache workdir s).state
  have hcompiled := Crawl.compiled_ofRuns runs
  refine ⟨.ofRuns runs, runs, last, ?_, ?_, hcompiled, ?_, ?_, fun file hfile => ?_,
    Crawl.failed_ofRuns runs, Crawl.uses_ofRuns runs, ?_⟩
  · rw [crawl, Task.result_bind_ok _ h, hresult]
  · rw [crawl, Task.state_bind_ok _ h]
    exact hruns
  · rw [hcompiled]
    exact hruns.sublist_pending.nodup hq.nodup
  · rw [hcompiled]
    exact hruns.sublist_pending
  · rw [hcompiled]
    exact hruns.notMem_iff hq (CompileQueue.mem_ofFiles.mpr hfile)
  · rw [hruns.resolved_eq]
    rfl

end

/-- A compiler whose reports are written down; files without one fail. -/
def Compiler.written (script : List (String × Report)) : Compiler Unit where
  compile _ file := Task.ofResult ((script.lookup file).elim
    (.error (.compileFailure file "")) .ok)
  clearCache _ := return ()

theorem crawl_coverage_duplicates :
    ∃ c, (crawl (.written [("src/Main.elm", ⟨[], ["src/A.elm"]⟩)]) "w"
        ["src/A.elm", "src/Main.elm", "src/B.elm", "src/A.elm"] ()).result = .ok c ∧
      c.compiled.Sublist ["src/Main.elm", "src/A.elm", "src/B.elm"] := by
  obtain ⟨c, _, _, hresult, _, _, _, hsublist, _⟩ :=
    crawl_coverage (.written [("src/Main.elm", ⟨[], ["src/A.elm"]⟩)]) "w"
      ["src/A.elm", "src/Main.elm", "src/B.elm", "src/A.elm"] rfl
  exact ⟨c, hresult, hsublist⟩

end UsageGraph
