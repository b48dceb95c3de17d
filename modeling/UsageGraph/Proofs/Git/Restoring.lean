import UsageGraph.Proofs.Git.Trace
import UsageGraph.Proofs.Tasks

/-! # The checkout after a task

* `Git.Replies`: git is started with some arguments and succeeds.
* `Git.Tells`: git tells a name for the branch, or else the commit, that is checked out.
* `Git.Restored`: a run that is followed by one more call, which asks for a checkout by name.
* `Git.follows_withRestoredCheckout`: the calls before and after a task.
* `Git.Head`, `Git.TellsHead`: what `HEAD` refers to, and a git that tells of it as git is documented
  to.
* `Git.withRestoredCheckout_restores`: where git tells a name, a task runs and keeps its end, and that
  name is asked for after it. This leads back where the name is the branch's own.
* `Git.withRestoredCheckout_detaches`: a branch that git tells by another name is left.
-/

namespace UsageGraph
open Text
set_option autoImplicit false

namespace Git
variable {g : GitProgram} {path : String} {u v w : Workspace} {args : List String} {stdout : String}

/-! ## Successful calls -/

/-- Git is started in the directory, prints a text and exits with success. -/
def Replies (g : GitProgram) (path : String) (args : List String) (u : Workspace) (stdout : String)
    (v : Workspace) : Prop :=
  ∃ call, enter g u path args = .ok call ∧ (exchange g u call).1.run.exit = 0 ∧
    (exchange g u call).1.run.stdout = stdout ∧ (exchange g u call).2 = v

theorem Replies.run_eq (h : Replies g path args u stdout v) :
    run g path args u = ⟨.ok stdout, v, []⟩ := by
  obtain ⟨call, hcall, hexit, rfl, rfl⟩ := h
  rw [run, Task.bind_of_ok (start_of_call g path args hcall)]
  dsimp only
  rw [if_pos hexit]
  rfl

theorem Replies.exists_dir (h : Replies g path args u stdout v) : ∃ dir,
    (exchange g u ⟨dir, args⟩).1.run.exit = 0 ∧ (exchange g u ⟨dir, args⟩).1.run.stdout = stdout ∧
      (exchange g u ⟨dir, args⟩).2 = v := by
  obtain ⟨⟨dir, args'⟩, hcall, h⟩ := h
  obtain ⟨-, rfl⟩ := enter_eq_ok hcall
  exact ⟨dir, h⟩

/-- A run of git succeeds with git or fails. It reports nothing. -/
theorem replies_or_error (g : GitProgram) (path : String) (args : List String) (u : Workspace) :
    (∃ stdout v, Replies g path args u stdout v) ∨
      ∃ f v, run g path args u = ⟨.error f, v, []⟩ := by
  cases hcall : enter g u path args with
  | error cause =>
    have hstart : start g path args u = ⟨.ok (.error cause), u, []⟩ := by rw [start, hcall]
    rw [run, Task.bind_of_ok hstart]
    exact .inr ⟨_, u, rfl⟩
  | ok call =>
    by_cases hexit : (exchange g u call).1.run.exit = 0
    · exact .inl ⟨_, _, call, hcall, hexit, rfl, rfl⟩
    · rw [run, Task.bind_of_ok (start_of_call g path args hcall)]
      dsimp only
      rw [if_neg hexit]
      exact .inr ⟨_, _, rfl⟩

/-! ## What is checked out -/

def branchArgs : List String := ["rev-parse", "--abbrev-ref", "HEAD"]

def commitArgs : List String := ["rev-parse", "HEAD"]

/-- No branch is checked out. -/
def Detached (stdout : String) : Prop := trim stdout = "HEAD" ∨ trim stdout = ""

instance (stdout : String) : Decidable (Detached stdout) := inferInstanceAs (Decidable (_ ∨ _))

/-- Git tells a name for the branch, or else the commit. -/
inductive Tells (g : GitProgram) (path : String) (u : Workspace) : String → Workspace → Prop where
  | branch {stdout : String} {v : Workspace} : Replies g path branchArgs u stdout v →
      ¬Detached stdout → Tells g path u (trim stdout) v
  | commit {stdout hash : String} {v w : Workspace} : Replies g path branchArgs u stdout v →
      Detached stdout → Replies g path commitArgs v hash w → Tells g path u (trim hash) w

theorem currentBranch_eq (h : Replies g path branchArgs u stdout v) : currentBranch g path u =
    ⟨.ok (if Detached stdout then none else some (trim stdout)), v, []⟩ :=
  Task.bind_of_ok h.run_eq

theorem head_eq (h : Replies g path commitArgs u stdout v) :
    head g path u = ⟨.ok (trim stdout), v, []⟩ := Task.bind_of_ok h.run_eq

theorem checkoutName_eq {name : String} (h : Tells g path u name v) :
    checkoutName g path u = ⟨.ok name, v, []⟩ := by
  cases h with
  | branch hbranch hattached =>
    have hcurrent := currentBranch_eq hbranch
    rw [if_neg hattached] at hcurrent
    exact Task.bind_of_ok hcurrent
  | commit hbranch hdetached hcommit =>
    have hcurrent := currentBranch_eq hbranch
    rw [if_pos hdetached] at hcurrent
    rw [checkoutName, Task.bind_of_ok hcurrent]
    dsimp only
    rw [head_eq hcommit]
    rfl

/-- Git tells what is checked out, or one of the two questions fails. -/
theorem tells_or_error (g : GitProgram) (path : String) (u : Workspace) :
    (∃ name v, Tells g path u name v) ∨ ∃ f v, checkoutName g path u = ⟨.error f, v, []⟩ := by
  rcases replies_or_error g path branchArgs u with ⟨stdout, v, hbranch⟩ | ⟨f, v, hfailed⟩
  · by_cases hdetached : Detached stdout
    · rcases replies_or_error g path commitArgs v with ⟨hash, w, hcommit⟩ | ⟨f, w, hfailed⟩
      · exact .inl ⟨trim hash, w, .commit hbranch hdetached hcommit⟩
      · have hcurrent := currentBranch_eq hbranch
        rw [if_pos hdetached] at hcurrent
        have hhead : head g path v = ⟨.error f, w, []⟩ := Task.bind_of_error hfailed
        rw [checkoutName, Task.bind_of_ok hcurrent]
        dsimp only
        rw [hhead]
        exact .inr ⟨f, w, rfl⟩
    · exact .inl ⟨trim stdout, v, .branch hbranch hdetached⟩
  · have hcurrent : currentBranch g path u = ⟨.error f, v, []⟩ := Task.bind_of_error hfailed
    exact .inr ⟨f, v, Task.bind_of_error hcurrent⟩

/-! ## Back to it -/

def restoreWarning (path name : String) (f : Fault) : Event :=
  .warn ("Couldn't restore " ++ path ++ " to " ++ name ++ ": " ++ f.message)

/-- The run ends as another one does, after one more call that asks for a checkout by name. A
failure of that call is reported and otherwise ignored. -/
structure Restored {α : Type} (g : GitProgram) (path name : String) (inner o : Outcome Workspace α) :
    Prop where
  result : o.result = inner.result
  last : ∃ closing, Restores g path name inner.state closing o.state
  events : (∃ stdout, Replies g path (checkoutArgs name) inner.state stdout o.state ∧
      o.events = inner.events) ∨
    (∀ stdout v, ¬Replies g path (checkoutArgs name) inner.state stdout v) ∧
      ∃ f, o.events = inner.events ++ [restoreWarning path name f]

theorem restore_of_replies {name : String} (h : Replies g path (checkoutArgs name) u stdout v) :
    restore g path name u = ⟨.ok (), v, []⟩ := by
  have hcheckout : checkoutRef g path name u = ⟨.ok (), v, []⟩ := Task.bind_of_ok h.run_eq
  rw [restore, Task.recover_of_ok hcheckout]

theorem restore_of_error {name : String} {f : Fault}
    (h : run g path (checkoutArgs name) u = ⟨.error f, v, []⟩) :
    restore g path name u = ⟨.ok (), v, [restoreWarning path name f]⟩ := by
  have hcheckout : checkoutRef g path name u = ⟨.error f, v, []⟩ := Task.bind_of_error h
  rw [restore, Task.recover_of_error hcheckout]
  rfl

theorem restored_restore {α : Type} (g : GitProgram) (path name : String)
    (inner : Outcome Workspace α) : Restored g path name inner
      ⟨inner.result, (restore g path name inner.state).state,
        inner.events ++ (restore g path name inner.state).events⟩ := by
  obtain ⟨-, closing, hclosing⟩ := restores_restore g path name inner.state
  refine ⟨rfl, ⟨closing, hclosing⟩, ?_⟩
  rcases replies_or_error g path (checkoutArgs name) inner.state with
    ⟨stdout, v, hreplies⟩ | ⟨f, v, hfailed⟩
  · rw [restore_of_replies hreplies, List.append_nil]
    exact .inl ⟨stdout, hreplies, rfl⟩
  · rw [restore_of_error hfailed]
    refine .inr ⟨fun stdout v' hreplies => ?_, f, rfl⟩
    rw [hreplies.run_eq] at hfailed
    cases hfailed

section
variable {α : Type} {name : String}

/-- Where git tells what is checked out, the task runs and the checkout is restored after it. -/
theorem withRestoredCheckout_eq (h : Tells g path u name v) {t : Task Workspace α}
    (hends : Task.brokenOff (t v).result = false) : withRestoredCheckout g path t u =
      ⟨(t v).result, (restore g path name (t v).state).state,
        (t v).events ++ (restore g path name (t v).state).events⟩ := by
  have hattempt : t.attempt v = ⟨.ok (t v).result, (t v).state, (t v).events⟩ := rfl
  obtain ⟨hok, -⟩ := restores_restore g path name (t v).state
  have hrestore : restore g path name (t v).state = ⟨.ok (),
      (restore g path name (t v).state).state, (restore g path name (t v).state).events⟩ := by
    rw [← hok]
  rw [withRestoredCheckout, Task.bind_of_ok (checkoutName_eq h), Task.bind_of_ok hattempt, hends,
    if_neg Bool.false_ne_true, Task.bind_of_ok hrestore]
  simp [Task.ofResult]

/-- A panic in the task is the end of it all. -/
theorem withRestoredCheckout_of_brokenOff (h : Tells g path u name v) {t : Task Workspace α}
    (hbroken : Task.brokenOff (t v).result = true) : withRestoredCheckout g path t u = t v := by
  have hattempt : t.attempt v = ⟨.ok (t v).result, (t v).state, (t v).events⟩ := rfl
  rw [withRestoredCheckout, Task.bind_of_ok (checkoutName_eq h), Task.bind_of_ok hattempt, hbroken,
    if_pos rfl]
  simp [Task.ofResult]

/-- The calls before and after a task. It does not run where git cannot tell what is checked out. -/
theorem follows_withRestoredCheckout (g : GitProgram) (path : String) (t : Task Workspace α)
    (w : Workspace) : ∃ naming v, Follows g path w naming v ∧ Quiet naming ∧
      ((withRestoredCheckout g path t w).state = v ∧
          (∃ f, (withRestoredCheckout g path t w).result = .error f) ∨
        (withRestoredCheckout g path t w).result = (t v).result ∧
          ∃ name, Tells g path w name v ∧
            (Task.brokenOff (t v).result = true ∧
                (withRestoredCheckout g path t w).state = (t v).state ∨
              ∃ closing, Restores g path name (t v).state closing
                (withRestoredCheckout g path t w).state)) := by
  obtain ⟨naming, hnaming, hquiet⟩ := emits_checkoutName g path w
  refine ⟨naming, _, hnaming, hquiet, ?_⟩
  rcases tells_or_error g path w with ⟨name, v, htells⟩ | ⟨f, v, hfailed⟩
  · rw [checkoutName_eq htells]
    refine .inr ?_
    cases hends : Task.brokenOff (t v).result with
    | true =>
      rw [withRestoredCheckout_of_brokenOff htells hends]
      exact ⟨rfl, name, htells, .inl ⟨rfl, rfl⟩⟩
    | false =>
      obtain ⟨-, hclosing⟩ := restores_restore g path name (t v).state
      rw [withRestoredCheckout_eq htells hends]
      exact ⟨rfl, name, htells, .inr hclosing⟩
  · have hrun : withRestoredCheckout g path t w = ⟨.error f, v, []⟩ := Task.bind_of_error hfailed
    rw [hrun, hfailed]
    exact .inl ⟨rfl, f, rfl⟩

end

/-! ## `HEAD` -/

/-- What `HEAD` refers to. -/
inductive Head where
  | branch (name : String)
  | commit (hash : String)
  deriving DecidableEq, Repr

namespace Head

/-- What a checkout that leads to it is asked for by. -/
def name : Head → String
  | branch name => name
  | commit hash => hash

/-- What `rev-parse --abbrev-ref` is documented to print: a short name that nothing else has. For a
branch it is its own name, unless another reference has that, too. -/
inductive Abbreviated : Head → String → Prop where
  | own {branch : String} : branch ≠ "HEAD" → branch ≠ "" →
      Abbreviated (.branch branch) branch
  | heads {branch : String} : Abbreviated (.branch branch) ("heads/" ++ branch)
  | refs {branch : String} : Abbreviated (.branch branch) ("refs/heads/" ++ branch)
  | detached {hash : String} : Abbreviated (.commit hash) "HEAD"

/-- A branch is told by a short name, a commit by itself. -/
def ToldAs (h : Head) (told : String) : Prop :=
  match h with
  | branch _ => h.Abbreviated told
  | commit hash => told = hash

end Head

/-- Git tells of `HEAD` as it is documented to, and to ask for it moves nothing. -/
structure TellsHead (g : GitProgram) (path : String) (head : Workspace → Head) : Prop where
  branch : ∀ u stdout v, Replies g path branchArgs u stdout v → head v = head u ∧
    (head u).Abbreviated (trim stdout)
  commit : ∀ u stdout v hash, Replies g path commitArgs u stdout v → head u = .commit hash →
    head v = head u ∧ trim stdout = hash

/-- A checkout of what `HEAD` refers to leads there, if it succeeds. -/
def LeadsTo (g : GitProgram) (path : String) (head : Workspace → Head) (h : Head) : Prop :=
  ∀ u stdout v, Replies g path (checkoutArgs h.name) u stdout v → head v = h

/-- A checkout leads to the branch of the very name that is asked for, or away from all branches. -/
def KeepsNames (g : GitProgram) (path : String) (head : Workspace → Head) : Prop :=
  ∀ u name stdout v, Replies g path (checkoutArgs name) u stdout v →
    ∀ branch, head v = .branch branch → branch = name

theorem Head.Abbreviated.isDetached {h : Head} {told : String} (ha : h.Abbreviated told)
    (hd : told = "HEAD" ∨ told = "") : ∃ hash, h = .commit hash := by
  cases ha with
  | own hhead hne => exact absurd hd (not_or.mpr ⟨hhead, hne⟩)
  | heads =>
    rcases hd with hd | hd <;> exact absurd (congrArg (·.toList.head?) hd) (by simp)
  | refs =>
    rcases hd with hd | hd <;> exact absurd (congrArg (·.toList.head?) hd) (by simp)
  | detached => exact ⟨_, rfl⟩

/-- The name that git tells is one for what `HEAD` refers to. -/
theorem TellsHead.toldAs {head : Workspace → Head} (hhead : TellsHead g path head) {name : String}
    (h : Tells g path u name v) : (head u).ToldAs name := by
  cases h with
  | @branch stdout v hbranch hattached =>
    obtain ⟨-, hshort⟩ := hhead.branch u stdout v hbranch
    cases hu : head u with
    | branch branch =>
      rw [hu] at hshort
      exact hshort
    | commit hash =>
      rw [hu] at hshort
      generalize htold : trim stdout = told at hshort
      cases hshort
      exact absurd (.inl htold) hattached
  | @commit stdout hash u' v hbranch hdetached hcommit =>
    obtain ⟨hsame, hshort⟩ := hhead.branch u stdout u' hbranch
    obtain ⟨hash', hu⟩ := hshort.isDetached hdetached
    rw [hu]
    exact (hhead.commit u' hash v hash' hcommit (hsame.trans hu)).2

/-- Either git does not tell what is checked out, and nothing is done, or the task runs from there.
Unless it breaks off, it is followed by the checkout of the name that git told. Where that is the own
name of what `HEAD` referred to, `HEAD` is back there; a branch that was told by any other name is
left. -/
theorem withRestoredCheckout_restores (g : GitProgram) (path : String) (w : Workspace) :
    (∃ name v, Tells g path w name v ∧
      (∀ head, TellsHead g path head → (head w).ToldAs name) ∧
      ∀ (α : Type) (t : Task Workspace α),
        (Task.brokenOff (t v).result = true → withRestoredCheckout g path t w = t v) ∧
        (Task.brokenOff (t v).result = false →
          Restored g path name (t v) (withRestoredCheckout g path t w) ∧
          ((∃ stdout, Replies g path (checkoutArgs name) (t v).state stdout
              (withRestoredCheckout g path t w).state) → ∀ head,
            (LeadsTo g path head (head w) → name = (head w).name →
              head (withRestoredCheckout g path t w).state = head w) ∧
            (KeepsNames g path head → ∀ branch, head w = .branch branch → name ≠ branch →
              head (withRestoredCheckout g path t w).state ≠ head w)))) ∨
    (¬∃ name v, Tells g path w name v) ∧ ∃ f v, ∀ (α : Type) (t : Task Workspace α),
      withRestoredCheckout g path t w = ⟨.error f, v, []⟩ := by
  rcases tells_or_error g path w with ⟨name, v, htells⟩ | ⟨f, v, hfailed⟩
  · refine .inl ⟨name, v, htells, fun head hhead => hhead.toldAs htells, fun α t =>
      ⟨withRestoredCheckout_of_brokenOff htells, fun hends => ?_⟩⟩
    have hrestored := restored_restore g path name (t v)
    rw [← withRestoredCheckout_eq htells hends] at hrestored
    refine ⟨hrestored, ?_⟩
    rintro ⟨stdout, hlast⟩ head
    constructor
    · rintro hback rfl
      exact hback _ stdout _ hlast
    · intro hkeeps branch hbranch hne hsame
      exact hne (hkeeps _ name stdout _ hlast branch (hsame.trans hbranch)).symm
  · refine .inr ⟨?_, f, v, fun α t => Task.bind_of_error hfailed⟩
    rintro ⟨name, v', htells⟩
    rw [checkoutName_eq htells] at hfailed
    cases hfailed

/-! ## A clone whose `HEAD` moves with the checkouts -/

def branches : List String := ["main", "v1"]

def commits : List String := ["a0", "b1"]

def heads : List Head := branches.map .branch ++ commits.map .commit

/-- What the names in the clone lead to. A branch goes before everything else of its name; a longer
name of it, or a tag, leads to its commit alone. -/
def targets (tags : List String) : List (String × Head) :=
  heads.map (fun h => (h.name, h)) ++
    (branches.map ("heads/" ++ ·) ++ tags).map fun name => (name, .commit "a0")

def target? (tags : List String) (name : String) : Option Head :=
  ((targets tags).find? fun t => t.1 == name).map Prod.snd

def moved (tags : List String) (h : Head) (call : GitCall) : Head :=
  match call.args with
  | ["checkout", "--force", "--quiet", name] => (target? tags name).getD h
  | _ => h

/-- The commit that is checked out. -/
def tip : Head → String
  | .branch _ => "a0"
  | .commit hash => hash

def shortName (tags : List String) : Head → String
  | .branch name => if name ∈ tags then "heads/" ++ name else name
  | .commit _ => "HEAD"

/-- Git in a clone in which nothing moves but `HEAD`. -/
def startingAt (tags : List String) (initial : Head) : GitProgram where
  respond calls t call :=
    let now := calls.foldl (moved tags) initial
    match call.args with
    | ["rev-parse", "--abbrev-ref", "HEAD"] => (⟨0, shortName tags now ++ "\n", ""⟩, t)
    | ["rev-parse", "HEAD"] => (⟨0, tip now ++ "\n", ""⟩, t)
    | ["checkout", "--force", "--quiet", name] =>
      (⟨if (target? tags name).isSome then 0 else 1, "", ""⟩, t)
    | _ => (⟨0, "", ""⟩, t)

def headFrom (tags : List String) (initial : Head) (w : Workspace) : Head :=
  w.gitCalls.foldl (moved tags) initial

section
variable {tags : List String} {initial : Head}

theorem target?_eq_some {name : String} {h : Head} (htarget : target? tags name = some h) :
    h ∈ heads ∧ ∀ branch, h = .branch branch → branch = name := by
  obtain ⟨⟨name', h'⟩, hfind, rfl⟩ := Option.map_eq_some_iff.mp htarget
  have hname : name' = name := by simpa using List.find?_some hfind
  rcases List.mem_append.mp (List.mem_of_find?_eq_some hfind) with hmem | hmem
  · obtain ⟨h, hh, heq⟩ := List.mem_map.mp hmem
    cases heq
    refine ⟨hh, ?_⟩
    rintro branch rfl
    exact hname
  · obtain ⟨name, -, heq⟩ := List.mem_map.mp hmem
    cases heq
    have ha0 : Head.commit "a0" ∈ heads := by decide
    exact ⟨ha0, nofun⟩

theorem headFrom_mem (h : initial ∈ heads) (w : Workspace) : headFrom tags initial w ∈ heads := by
  rw [headFrom]
  induction w.gitCalls generalizing initial with
  | nil => exact h
  | cons call calls ih =>
    refine ih ?_
    rw [moved]
    split
    · next name _ =>
      cases htarget : target? tags name with
      | none => exact h
      | some r => exact (target?_eq_some htarget).1
    · exact h

theorem headFrom_exchange (g : GitProgram) (u : Workspace) (call : GitCall) :
    headFrom tags initial (exchange g u call).2 = moved tags (headFrom tags initial u) call :=
  List.foldl_append

theorem tellsHead_startingAt (h : initial ∈ heads) (path : String) :
    TellsHead (startingAt tags initial) path (headFrom tags initial) where
  branch := by
    intro u stdout v hreplies
    obtain ⟨dir, -, rfl, rfl⟩ := hreplies.exists_dir
    have hprinted : (exchange (startingAt tags initial) u ⟨dir, branchArgs⟩).1.run.stdout =
        shortName tags (headFrom tags initial u) ++ "\n" := rfl
    have hown : ∀ name ∈ branches, trim (name ++ "\n") = name ∧
        trim ("heads/" ++ name ++ "\n") = "heads/" ++ name ∧ name ≠ "HEAD" ∧ name ≠ "" := by
      decide +kernel
    refine ⟨headFrom_exchange _ u _, ?_⟩
    rw [hprinted]
    have hnow : headFrom tags initial u ∈ heads := headFrom_mem h u
    generalize headFrom tags initial u = now at hnow
    rcases List.mem_append.mp hnow with hnow | hnow
    · obtain ⟨name, hname, rfl⟩ := List.mem_map.mp hnow
      obtain ⟨hplain, hlong, hhead, hne⟩ := hown name hname
      rw [shortName]
      split
      · rw [hlong]
        exact .heads
      · rw [hplain]
        exact .own hhead hne
    · obtain ⟨hash, -, rfl⟩ := List.mem_map.mp hnow
      have hdetached : trim (shortName tags (.commit hash) ++ "\n") = "HEAD" := by
        change trim ("HEAD" ++ "\n") = "HEAD"
        decide +kernel
      rw [hdetached]
      exact .detached
  commit := by
    intro u stdout v hash hreplies hnow
    obtain ⟨dir, -, rfl, rfl⟩ := hreplies.exists_dir
    have hprinted : (exchange (startingAt tags initial) u ⟨dir, commitArgs⟩).1.run.stdout =
        tip (headFrom tags initial u) ++ "\n" := rfl
    have htold : ∀ hash ∈ commits, trim (hash ++ "\n") = hash := by decide +kernel
    have hmem : headFrom tags initial u ∈ heads := headFrom_mem h u
    rw [hnow] at hmem
    refine ⟨headFrom_exchange _ u _, ?_⟩
    rw [hprinted, hnow]
    exact htold hash (by simpa [heads] using hmem)

theorem keepsNames_startingAt (path : String) :
    KeepsNames (startingAt tags initial) path (headFrom tags initial) := by
  intro u name stdout v hreplies branch hbranch
  obtain ⟨dir, hexit, -, rfl⟩ := hreplies.exists_dir
  have hmoved : moved tags (headFrom tags initial u) ⟨dir, checkoutArgs name⟩ =
      (target? tags name).getD (headFrom tags initial u) := rfl
  have hexit : (if (target? tags name).isSome then 0 else 1) = 0 := hexit
  rw [headFrom_exchange, hmoved] at hbranch
  cases htarget : target? tags name with
  | none =>
    rw [htarget] at hexit
    cases hexit
  | some h =>
    rw [htarget] at hbranch
    exact (target?_eq_some htarget).2 branch hbranch

theorem leadsTo_startingAt (path : String) {h : Head} (hmem : h ∈ heads) :
    LeadsTo (startingAt tags initial) path (headFrom tags initial) h := by
  intro u stdout v hreplies
  obtain ⟨dir, -, -, rfl⟩ := hreplies.exists_dir
  have hmoved : moved tags (headFrom tags initial u) ⟨dir, checkoutArgs h.name⟩ =
      (target? tags h.name).getD (headFrom tags initial u) := rfl
  have hfound : target? tags h.name = some h := by
    simp only [heads, branches, commits, List.map_cons, List.map_nil, List.cons_append,
      List.nil_append, List.mem_cons, List.not_mem_nil, or_false] at hmem
    rcases hmem with rfl | rfl | rfl | rfl <;> rfl
  rw [headFrom_exchange, hmoved, hfound, Option.getD_some]

end

def cloneAt : Workspace := ⟨⟨[(["clone"], .directory)], "/"⟩, []⟩

/-- A task that leaves the clone at another commit, and fails. -/
def stray (g : GitProgram) : Task Workspace Unit := do
  checkoutRef g "clone" "b1"
  checkoutRef g "clone" "nowhere"

/-- `HEAD` was detached, and is so again at the same commit. -/
theorem withRestoredCheckout_restores_detached :
    let g := startingAt [] (.commit "a0")
    let o := withRestoredCheckout g "clone" (stray g) cloneAt
    TellsHead g "clone" (headFrom [] (.commit "a0")) ∧
      LeadsTo g "clone" (headFrom [] (.commit "a0")) (.commit "a0") ∧
      o.state.gitCalls.map GitCall.args =
        [branchArgs, commitArgs, checkoutArgs "b1", checkoutArgs "nowhere", checkoutArgs "a0"] ∧
      o.result = .error (.git "git checkout --force --quiet nowhere failed: ") ∧
      headFrom [] (.commit "a0") o.state = .commit "a0" := by
  intro g o
  have hmem : Head.commit "a0" ∈ heads := by decide
  have htold : TellsHead g "clone" (headFrom [] (.commit "a0")) := tellsHead_startingAt hmem "clone"
  have hback : LeadsTo g "clone" (headFrom [] (.commit "a0")) (.commit "a0") :=
    leadsTo_startingAt "clone" hmem
  have hresult : o.result = .error (.git "git checkout --force --quiet nowhere failed: ") :=
    Outcome.fault?_eq_some.mp (by decide +kernel)
  refine ⟨htold, hback, by decide +kernel, hresult, ?_⟩
  rcases withRestoredCheckout_restores g "clone" cloneAt with
    ⟨name, v, -, hname, hall⟩ | ⟨-, f, v, hfailed⟩
  · have hown : name = "a0" := hname _ htold
    obtain ⟨hbroken, hends⟩ := hall Unit (stray g)
    cases hend : Task.brokenOff (stray g v).result with
    | true =>
      have hsame : o.result = (stray g v).result := congrArg Outcome.result (hbroken hend)
      rw [← hsame, hresult] at hend
      cases hend
    | false =>
      obtain ⟨hrestored, hhead⟩ := hends hend
      rcases hrestored.events with ⟨stdout, hreplies, -⟩ | ⟨-, f, hwarned⟩
      · exact (hhead ⟨stdout, hreplies⟩ _).1 hback hown
      · have hsilent : (withRestoredCheckout g "clone" (stray g) cloneAt).events = [] := by
          decide +kernel
        rw [hsilent] at hwarned
        exact absurd hwarned.symm (List.concat_ne_nil _ _)
  · have hruns : (withRestoredCheckout g "clone" (pure ()) cloneAt).fault? = none := by
      decide +kernel
    rw [hfailed Unit (pure ())] at hruns
    cases hruns

/-- The branch `v1` has a tag of its name beside it. Git tells it by a longer name, and to check that
out leaves the branch. To check out `v1` would lead back. -/
theorem withRestoredCheckout_detaches :
    let g := startingAt ["v1"] (.branch "v1")
    let o := withRestoredCheckout g "clone" (pure ()) cloneAt
    TellsHead g "clone" (headFrom ["v1"] (.branch "v1")) ∧
      KeepsNames g "clone" (headFrom ["v1"] (.branch "v1")) ∧
      LeadsTo g "clone" (headFrom ["v1"] (.branch "v1")) (.branch "v1") ∧
      o.result = .ok () ∧ o.events = [] ∧
      o.state.gitCalls.map GitCall.args = [branchArgs, checkoutArgs "heads/v1"] ∧
      headFrom ["v1"] (.branch "v1") cloneAt = .branch "v1" ∧
      headFrom ["v1"] (.branch "v1") o.state = .commit "a0" := by
  have hmem : Head.branch "v1" ∈ heads := by decide
  exact ⟨tellsHead_startingAt hmem "clone", keepsNames_startingAt "clone",
    leadsTo_startingAt "clone" hmem, rfl, by decide +kernel, by decide +kernel, rfl,
    by decide +kernel⟩

end Git
end UsageGraph
