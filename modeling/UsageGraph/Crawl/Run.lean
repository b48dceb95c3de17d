import UsageGraph.Crawl.Queue
import UsageGraph.Diagnostic.Report
import UsageGraph.Task

/-! # Crawling a package

* `Compiler`: a way to compile a file of a checkout and to forget what earlier runs left there.
* `Crawl`: which files were compiled, which of them failed, and the uses that were reported.
* `crawl`: compiles until every file is covered. A file that fails is noted and passed over.
-/

namespace UsageGraph
set_option autoImplicit false

/-- A compiler that works on states of type `σ`, with the checkout as its first argument. -/
structure Compiler (σ : Type) where
  compile : String → String → Task σ Report
  clearCache : String → Task σ Unit

structure Crawl where
  uses : List ExternalUse
  /-- In the order of compilation. -/
  compiled : List String
  failed : List String
  deriving Repr

namespace Crawl

def empty : Crawl := ⟨[], [], []⟩

/-- One compilation, in front of what came after it. -/
def cons (file : String) (result : Except Fault Report) (later : Crawl) : Crawl :=
  match result with
  | .ok r => ⟨r.uses ++ later.uses, file :: later.compiled, later.failed⟩
  | .error _ => ⟨later.uses, file :: later.compiled, file :: later.failed⟩

end Crawl

section
variable {σ : Type} (compiler : Compiler σ) (workdir : String)

def compileEvent (file : String) : Except Fault Report → Event
  | .ok r => .info ("compile " ++ file ++ ": success (" ++ toString r.uses.length ++ " references)")
  | .error f => .warn ("compile " ++ file ++ ": failed: " ++ f.message)

/-- The files that a compilation covers: its own file, and after a success all that it reported
about. -/
def covered (file : String) : Except Fault Report → List String
  | .ok r => r.files ++ [file]
  | .error _ => [file]

def crawlQueue (q : CompileQueue) : Task σ Crawl :=
  match _h : q.pop? with
  | none => return .empty
  | some (file, rest) => do
    let result ← (compiler.compile workdir file).attempt
    Task.report (compileEvent file result)
    let later ← crawlQueue (rest.resolve (covered file result))
    return later.cons file result
termination_by q.pending.length
decreasing_by
  cases hq : q.pending with
  | nil => simp [CompileQueue.pop?, hq] at _h
  | cons x xs =>
    simp only [CompileQueue.pop?, hq, Option.some.injEq, Prod.mk.injEq] at _h
    obtain ⟨_, rfl⟩ := _h
    simp only [CompileQueue.resolve, List.length_cons]
    exact Nat.lt_succ_of_le (List.length_filter_le _ _)

def crawl (files : List String) : Task σ Crawl := do
  compiler.clearCache workdir
  crawlQueue compiler workdir (.ofFiles files)

end

end UsageGraph
