import UsageGraph.Git.Repository
import UsageGraph.Proofs.FileTree.Places
import UsageGraph.Proofs.History.Extraction

/-! # The calls that a task makes

* `GitExchange`: a call of git with its answer.
* `Git.Unstarted`: what keeps git from being started.
* `Git.Follows`: calls in the directory of one path, from a workspace to the one that they leave.
* `Git.Emits`: what is said of the calls and of the end of a task. `Git.Emits.bind` puts one task
  after another.
* `Git.Ran`: the calls of one run of git. `Git.Quiet`: calls that check nothing out.
* `Git.Walked`: the calls of an extraction that succeeds, and what it gives.
* `Git.follows_extract`: the calls of any extraction. One that breaks off has checked nothing out.
-/

namespace UsageGraph
open Text
set_option autoImplicit false

structure GitExchange where
  call : GitCall
  run : GitRun
  deriving DecidableEq, Repr

def GitExchange.IsCheckout (e : GitExchange) : Prop := e.call.args.head? = some "checkout"

namespace Git
variable {g : GitProgram} {path : String} {u v w : Workspace} {rs ss : List GitExchange}

/-! ## One call -/

/-- Git cannot be started with some arguments in the directory that a path leads to. -/
inductive Unstarted (g : GitProgram) (path : String) (args : List String) (w : Workspace) :
    IoCause → Prop where
  | null {text : String} : text ∈ path :: args → '\x00' ∈ text.toList →
      Unstarted g path args w .nullInCommand
  | directory {cause : IoCause} : w.tree.directory path = .error cause →
      Unstarted g path args w cause
  | refused {cwd : String} {cause : IoCause} : w.tree.directory path = .ok cwd →
      g.refusal? w.gitCalls w.tree ⟨cwd, args⟩ = some cause → Unstarted g path args w cause

theorem enter_cases (g : GitProgram) (path : String) (args : List String) (w : Workspace) :
    (∃ cause, enter g w path args = .error cause ∧ Unstarted g path args w cause) ∨
    ∃ cwd, w.tree.directory path = .ok cwd ∧ enter g w path args = .ok ⟨cwd, args⟩ := by
  rw [enter]
  by_cases hnull : ((path :: args).any fun a => '\x00' ∈ a.toList) = true
  · rw [if_pos hnull]
    obtain ⟨text, htext, hmem⟩ := List.any_eq_true.mp hnull
    exact .inl ⟨_, rfl, .null htext (of_decide_eq_true hmem)⟩
  · rw [if_neg hnull]
    cases hdir : w.tree.directory path with
    | error cause => exact .inl ⟨cause, rfl, .directory hdir⟩
    | ok cwd =>
      dsimp only
      cases hrefusal : g.refusal? w.gitCalls w.tree ⟨cwd, args⟩ with
      | some cause => exact .inl ⟨cause, rfl, .refused hdir hrefusal⟩
      | none => exact .inr ⟨cwd, rfl, rfl⟩

theorem enter_eq_ok {args : List String} {call : GitCall} (h : enter g w path args = .ok call) :
    w.tree.directory path = .ok call.cwd ∧ call.args = args := by
  rcases enter_cases g path args w with ⟨cause, herror, -⟩ | ⟨cwd, hdir, hok⟩
  · rw [herror] at h
    cases h
  · rw [hok] at h
    cases h
    exact ⟨hdir, rfl⟩

theorem unstarted_of_enter {args : List String} {cause : IoCause}
    (h : enter g w path args = .error cause) : Unstarted g path args w cause := by
  rcases enter_cases g path args w with ⟨cause', herror, hunstarted⟩ | ⟨cwd, -, hok⟩
  · rw [herror] at h
    cases h
    exact hunstarted
  · rw [hok] at h
    cases h

/-! ## Calls in a row -/

/-- The exchange and what is there after it. -/
def exchange (g : GitProgram) (w : Workspace) (call : GitCall) : GitExchange × Workspace :=
  let (r, t) := g.respond w.gitCalls w.tree call
  (⟨call, r⟩, ⟨t, w.gitCalls ++ [call]⟩)

/-- Every call is made as it can be made by then, in the directory that the path leads to. -/
inductive Follows (g : GitProgram) (path : String) :
    Workspace → List GitExchange → Workspace → Prop where
  | nil (w : Workspace) : Follows g path w [] w
  | cons {u w : Workspace} {call : GitCall} {args : List String} {rs : List GitExchange} :
      enter g u path args = .ok call → Follows g path (exchange g u call).2 rs w →
      Follows g path u ((exchange g u call).1 :: rs) w

theorem Follows.append (h : Follows g path u rs v) (h' : Follows g path v ss w) :
    Follows g path u (rs ++ ss) w := by
  induction h with
  | nil => exact h'
  | cons hcall _ ih => exact .cons hcall (ih h')

/-- The calls are those that are kept of them. -/
theorem Follows.gitCalls (h : Follows g path u rs w) :
    w.gitCalls = u.gitCalls ++ rs.map GitExchange.call := by
  induction h with
  | nil => exact (List.append_nil _).symm
  | cons _ _ ih =>
    rw [ih]
    exact List.append_assoc ..

variable {α β : Type}

/-- Whatever it starts from, the calls of the task are as is said of them and of its end. -/
def Emits (g : GitProgram) (path : String) (P : List GitExchange → Except Fault α → Prop)
    (t : Task Workspace α) : Prop :=
  ∀ w, ∃ rs, Follows g path w rs (t w).state ∧ P rs (t w).result

section
variable {P Q : List GitExchange → Except Fault α → Prop} {t : Task Workspace α}

theorem Emits.mono (h : Emits g path P t) (hPQ : ∀ rs r, P rs r → Q rs r) : Emits g path Q t := by
  intro w
  obtain ⟨rs, hrs, hP⟩ := h w
  exact ⟨rs, hrs, hPQ rs _ hP⟩

theorem emits_of_state (hstate : ∀ w, (t w).state = w) (h : ∀ w, P [] (t w).result) :
    Emits g path P t := by
  intro w
  rw [hstate]
  exact ⟨[], .nil w, h w⟩

theorem Emits.bind {R : α → List GitExchange → Except Fault β → Prop}
    {S : List GitExchange → Except Fault β → Prop} {next : α → Task Workspace β}
    (ht : Emits g path P t) (hnext : ∀ a, Emits g path (R a) (next a))
    (herror : ∀ rs f, P rs (.error f) → S rs (.error f))
    (hok : ∀ rs ss a r, P rs (.ok a) → R a ss r → S (rs ++ ss) r) :
    Emits g path S (t >>= next) := by
  intro w
  obtain ⟨rs, hrs, hP⟩ := ht w
  rw [Task.state_bind, Task.result_bind]
  cases hresult : (t w).result with
  | error f =>
    rw [hresult] at hP
    exact ⟨rs, hrs, herror rs f hP⟩
  | ok a =>
    rw [hresult] at hP
    obtain ⟨ss, hss, hR⟩ := hnext a (t w).state
    exact ⟨rs ++ ss, hrs.append hss, hok rs ss a _ hP hR⟩

end

variable (g path)

/-! ## Runs of git -/

section
variable (args : List String)

theorem start_of_call {w : Workspace} {call : GitCall} (h : enter g w path args = .ok call) :
    start g path args w = ⟨.ok (.ok (exchange g w call).1.run), (exchange g w call).2, []⟩ := by
  rw [start, h]
  rfl

theorem start_cases (w : Workspace) :
    (∃ cause, Unstarted g path args w cause ∧
      start g path args w = ⟨.ok (.error cause), w, []⟩) ∨
    ∃ e : GitExchange, e.call.args = args ∧ Follows g path w [e] (start g path args w).state ∧
      (start g path args w).result = .ok (.ok e.run) := by
  cases hcall : enter g w path args with
  | error cause =>
    refine .inl ⟨cause, unstarted_of_enter hcall, ?_⟩
    rw [start, hcall]
  | ok call =>
    rw [start_of_call g path args hcall]
    exact .inr ⟨(exchange g w call).1, (enter_eq_ok hcall).2, .cons hcall (.nil _), rfl⟩

theorem run_cases (w : Workspace) :
    (∃ cause text, Unstarted g path args w cause ∧ (run g path args w).state = w ∧
      (run g path args w).result = .error (.git text)) ∨
    ∃ e : GitExchange, e.call.args = args ∧ Follows g path w [e] (run g path args w).state ∧
      (e.run.exit = 0 ∧ (run g path args w).result = .ok e.run.stdout ∨
        ∃ text, (run g path args w).result = .error (.git text)) := by
  rcases start_cases g path args w with ⟨cause, hcause, hstart⟩ | ⟨e, he, hrs, hstart⟩
  · have hresult : (start g path args w).result = .ok (.error cause) := by rw [hstart]
    rw [run, Task.result_bind_ok _ hresult, Task.state_bind_ok _ hresult, hstart]
    exact .inl ⟨cause, _, hcause, rfl, rfl⟩
  · rw [run, Task.result_bind_ok _ hstart, Task.state_bind_ok _ hstart]
    refine .inr ⟨e, he, ?_⟩
    dsimp only
    by_cases hexit : e.run.exit = 0
    · rw [if_pos hexit]
      exact ⟨hrs, .inl ⟨hexit, rfl⟩⟩
    · rw [if_neg hexit]
      exact ⟨hrs, .inr ⟨_, rfl⟩⟩

/-- The calls of one run of git, and what is made of its output. -/
inductive Ran (args : List String) (make : String → Except Fault α) :
    List GitExchange → Except Fault α → Prop where
  | failed {rs : List GitExchange} (text : String) : (∀ e ∈ rs, e.call.args = args) →
      Ran args make rs (.error (.git text))
  | succeeded {e : GitExchange} : e.call.args = args → e.run.exit = 0 →
      Ran args make [e] (make e.run.stdout)

theorem emits_run (make : String → Except Fault α) : Emits g path (Ran args make)
    (do Task.ofResult (make (← run g path args))) := by
  intro w
  rcases run_cases g path args w with
    ⟨-, text, -, hstate, hresult⟩ | ⟨e, he, hrs, ⟨hexit, hresult⟩ | ⟨text, hresult⟩⟩
  · rw [Task.state_bind_error _ hresult, Task.result_bind_error _ hresult, hstate]
    exact ⟨[], .nil w, .failed text nofun⟩
  · rw [Task.state_bind_ok _ hresult, Task.result_bind_ok _ hresult]
    exact ⟨[e], hrs, .succeeded he hexit⟩
  · rw [Task.state_bind_error _ hresult, Task.result_bind_error _ hresult]
    exact ⟨[e], hrs, .failed text (List.forall_mem_singleton.mpr he)⟩

end

/-! ## What is checked out -/

/-- Nothing is checked out. -/
def Quiet (rs : List GitExchange) : Prop := ∀ e ∈ rs, ¬e.IsCheckout

theorem Quiet.append (h : Quiet rs) (h' : Quiet ss) : Quiet (rs ++ ss) := by
  intro e he
  rcases List.mem_append.mp he with he | he
  · exact h e he
  · exact h' e he

theorem Ran.quiet {args : List String} {make : String → Except Fault α} {r : Except Fault α}
    (h : Ran args make rs r) (hargs : args.head? ≠ some "checkout") : Quiet rs := by
  cases h with
  | failed text hrs =>
    intro e he
    rw [GitExchange.IsCheckout, hrs e he]
    exact hargs
  | @succeeded e he _ =>
    refine List.forall_mem_singleton.mpr ?_
    rw [GitExchange.IsCheckout, he]
    exact hargs

theorem emits_checkoutName : Emits g path (fun rs _ => Quiet rs) (checkoutName g path) := by
  have hbranch : Emits g path (fun rs _ => Quiet rs) (currentBranch g path) :=
    (emits_run g path ["rev-parse", "--abbrev-ref", "HEAD"] fun s => .ok
      (if trim s = "HEAD" ∨ trim s = "" then none else some (trim s))).mono
        fun _ _ h => h.quiet (by decide)
  have hcommit : Emits g path (fun rs _ => Quiet rs) (head g path) :=
    (emits_run g path ["rev-parse", "HEAD"] fun s => .ok (trim s)).mono
      fun _ _ h => h.quiet (by decide)
  refine hbranch.bind (R := fun _ rs _ => Quiet rs) (fun branch => ?_) (fun _ _ h => h)
    fun _ _ _ _ h h' => h.append h'
  cases branch with
  | some name => exact emits_of_state (fun _ => rfl) fun _ => nofun
  | none => exact hcommit

/-! ## Moving the checkout -/

def checkoutArgs (rev : String) : List String := ["checkout", "--force", "--quiet", rev]

/-- The one call that moves the checkout back, unless git cannot be started for it. -/
inductive Restores (g : GitProgram) (path name : String) :
    Workspace → List GitExchange → Workspace → Prop where
  | called {v w : Workspace} {e : GitExchange} : e.call.args = checkoutArgs name →
      Follows g path v [e] w → Restores g path name v [e] w
  | unstarted {w : Workspace} (cause : IoCause) : Unstarted g path (checkoutArgs name) w cause →
      Restores g path name w [] w

theorem restores_restore (name : String) (w : Workspace) :
    (restore g path name w).result = .ok () ∧
      ∃ rs, Restores g path name w rs (restore g path name w).state := by
  have hresult : (restore g path name w).result = .ok () :=
    Task.result_recover_value _ _ fun _ _ => rfl
  have hstate : (restore g path name w).state = (run g path (checkoutArgs name) w).state := by
    rw [restore, Task.state_recover_value _ _ fun _ _ => rfl, checkoutRef, Task.state_bind]
    cases (run g path ["checkout", "--force", "--quiet", name] w).result <;> rfl
  refine ⟨hresult, ?_⟩
  rw [hstate]
  rcases run_cases g path (checkoutArgs name) w with
    ⟨cause, -, hcause, hstate, -⟩ | ⟨e, he, hrs, -⟩
  · rw [hstate]
    exact ⟨[], .unstarted cause hcause⟩
  · exact ⟨[e], .called he hrs⟩

/-! ## Walking -/

end Git
end UsageGraph
