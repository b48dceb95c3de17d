import UsageGraph.Import.Progress
import UsageGraph.Repository
import UsageGraph.Task

/-! # Importing many repositories

* `JobEnd`: how the import of one repository ended.
* `Pool`: imports side by side, as many at once as there are slots. They end in any order, and their
  ends are recorded in any order. One that fails does not stop the others.
* `Pool.Move`, `Pool.step`, `Pool.run`: what can happen next, and what happens one after another.
* `runJobs`: imports every repository, each one to its end before the next one starts.
* `slots`: how many imports may run at once.

Of the runtime `tokio` it is taken for granted that a semaphore admits no more tasks than it has
permits, that every task is joined once, in any order, and that a panic ends its own task alone. A pool
of more slots than there can be permits is none.
-/

namespace UsageGraph
set_option autoImplicit false

inductive JobEnd where
  | finished (summary : ImportSummary)
  | failed (fault : Fault)
  /-- The import itself broke down. -/
  | crashed (reason : String)
  deriving DecidableEq, Repr

/-- At least one import runs at a time. -/
def slots (asked : Nat) : Nat := max asked 1

def Progress.record (p : Progress) : JobEnd → Progress
  | .finished s => p.succeed s.references s.intervals
  | .failed _ => p.fail
  | .crashed _ => p.fail

def JobEnd.events (repo : Repository) : JobEnd → List Event
  | .finished _ => []
  | .failed fault => [.error (repo.id.fullName ++ ": import failed: " ++ fault.message)]
  | .crashed reason => [.error ("Import task panicked: " ++ reason)]

/-- The closing report. Imports take no time that could be told here. -/
def Progress.closingEvent (p : Progress) : Event :=
  .info ("Imported " ++ toString p.done ++ " repositories (" ++ toString p.failed ++ " failed): " ++
    toString p.references ++ " reference(s), " ++ toString p.intervals ++
    " dependency interval(s) in 0.0s")

/-! ## Imports side by side -/

/-- What a pool is about. -/
inductive Phase where
  /-- It waits for a slot, to start the next import. -/
  | launching
  /-- It has started an import, and records what has ended meanwhile. -/
  | collecting
  /-- It has started all imports, and waits for those that still run. -/
  | draining
  | closed
  deriving DecidableEq, Repr

structure Pool where
  slots : Nat
  phase : Phase
  waiting : List Repository
  /-- Every one of them takes a slot. -/
  running : List Repository
  /-- They have given their slots back and are not recorded yet. -/
  ended : List (Repository × JobEnd)
  started : List Repository
  recorded : List (Repository × JobEnd)
  progress : Progress
  deriving DecidableEq, Repr

namespace Pool

inductive Move where
  | launch
  /-- An import that runs comes to its end. -/
  | finish (n : Nat) (ending : JobEnd)
  | record (n : Nat)
  /-- Nothing else has ended by now. -/
  | resume
  | close
  deriving DecidableEq, Repr

def create (asked : Nat) : Pool := ⟨UsageGraph.slots asked, .closed, [], [], [], [], [], .initial⟩

/-- The phase between two imports. -/
def phaseBefore : List Repository → Phase
  | [] => .draining
  | _ :: _ => .launching

/-- A run of a pool that may have run before. -/
def begin (p : Pool) (repos : List Repository) : Pool :=
  { p with
    phase := phaseBefore repos
    waiting := repos
    started := []
    recorded := []
    progress := .start repos.length.toUInt64 }

section
variable (p : Pool)

def launch : Option Pool :=
  match p.waiting with
  | [] => none
  | repo :: rest =>
    if p.phase = .launching ∧ p.running.length < p.slots then
      some { p with
        phase := .collecting
        waiting := rest
        running := p.running ++ [repo]
        started := p.started ++ [repo] }
    else none

def finish (n : Nat) (ending : JobEnd) : Option Pool :=
  p.running[n]?.map fun repo =>
    { p with running := p.running.eraseIdx n, ended := p.ended ++ [(repo, ending)] }

def record (n : Nat) : Option Pool :=
  if p.phase = .collecting ∨ p.phase = .draining then
    p.ended[n]?.map fun e =>
      { p with
        ended := p.ended.eraseIdx n
        recorded := p.recorded ++ [e]
        progress := p.progress.record e.2 }
  else none

def resume : Option Pool :=
  if p.phase = .collecting then some { p with phase := phaseBefore p.waiting } else none

def close : Option Pool :=
  if p.phase = .draining ∧ p.running = [] ∧ p.ended = [] then
    some { p with phase := .closed, progress := p.progress.finish }
  else none

def step : Move → Option Pool
  | .launch => p.launch
  | .finish n ending => p.finish n ending
  | .record n => p.record n
  | .resume => p.resume
  | .close => p.close

end

def run : List Move → Pool → Option Pool
  | [], p => some p
  | m :: ms, p => (p.step m).bind (run ms)

/-- Moves that cannot be made change nothing. -/
def follow (moves : List Move) (p : Pool) : Pool := (run moves p).getD p

end Pool

/-! ## Imports one after another -/

section
variable {σ : Type} (job : Repository → Task σ JobEnd)

def runEach : List Repository → Pool → Task σ Pool
  | [], p => return p
  | repo :: rest, p => do
    let ending ← job repo
    Task.reportAll (ending.events repo)
    runEach rest (p.follow [.launch, .finish 0 ending, .record 0, .resume])

def runJobs (repos : List Repository) : Task σ Progress := do
  let p ← runEach job repos ((Pool.create 1).begin repos)
  let p := p.follow [.close]
  Task.report p.progress.closingEvent
  return p.progress

end

/-- The end of an import that ends with a summary or a fault. -/
def JobEnd.ofResult : Except Fault ImportSummary → JobEnd
  | .ok s => .finished s
  | .error (.panicked text) => .crashed text
  | .error f => .failed f

end UsageGraph
