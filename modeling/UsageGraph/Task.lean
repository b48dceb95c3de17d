import UsageGraph.Fault
import UsageGraph.Trace

/-! # Tasks

A task runs on a state and ends with a value or a fault. The state that it reached and the events
that it reported are there in both cases: a fault takes nothing back.

* `Outcome`, `Task`: what a run gives, and the function that gives it.
* `Task.fail`, `Task.report`, `Task.observe`, `Task.change`: the basic tasks.
* `Task.attempt`: makes the end of a task, be it a fault, the value of a task that succeeds.
* `Task.onPart`: a task on a part of a larger state.

The lemmas `result_…` and `state_…` give what a combination of tasks ends with and where.
-/

namespace UsageGraph
set_option autoImplicit false

structure Outcome (σ α : Type) where
  result : Except Fault α
  state : σ
  events : List Event

def Task (σ α : Type) : Type := σ → Outcome σ α

namespace Task
variable {σ τ α β : Type}

/-! ## Sequencing -/

def done (a : α) : Task σ α := fun s => ⟨.ok a, s, []⟩

def fail (f : Fault) : Task σ α := fun s => ⟨.error f, s, []⟩

/-- The second task runs from the state that the first one reached, unless that one failed. -/
def andThen (first : Task σ α) (next : α → Task σ β) : Task σ β := fun s =>
  match first s with
  | ⟨.error f, s, events⟩ => ⟨.error f, s, events⟩
  | ⟨.ok a, s, events⟩ =>
    let rest := next a s
    ⟨rest.result, rest.state, events ++ rest.events⟩

instance : Monad (Task σ) where
  pure := done
  bind := andThen

/-! ## Basic tasks -/

def report (e : Event) : Task σ Unit := fun s => ⟨.ok (), s, [e]⟩

def reportAll (events : List Event) : Task σ Unit := fun s => ⟨.ok (), s, events⟩

def ofResult (r : Except Fault α) : Task σ α := fun s => ⟨r, s, []⟩

/-- What can be read off the state, or the fault of reading it. -/
def observe (look : σ → Except Fault α) : Task σ α := fun s => ⟨look s, s, []⟩

def state : Task σ σ := fun s => ⟨.ok s, s, []⟩

def change (f : σ → σ) : Task σ Unit := fun s => ⟨.ok (), f s, []⟩

/-- A change that may be refused, and then changes nothing. -/
def tryChange (f : σ → Except Fault σ) : Task σ Unit := fun s =>
  match f s with
  | .ok s' => ⟨.ok (), s', []⟩
  | .error e => ⟨.error e, s, []⟩

/-! ## Combinations -/

def attempt (t : Task σ α) : Task σ (Except Fault α) := fun s =>
  let o := t s
  ⟨.ok o.result, o.state, o.events⟩

/-- The task did not come to its end. -/
def brokenOff : Except Fault α → Bool
  | .ok _ => false
  | .error f => f.isPanic

/-- The value of the task, or what `handle` makes of its fault. -/
def recover (t : Task σ α) (handle : Fault → Task σ α) : Task σ α := do
  match ← attempt t with
  | .ok a => return a
  | .error f => handle f

def onPart (get : σ → τ) (put : σ → τ → σ) (t : Task τ α) : Task σ α := fun s =>
  let o := t (get s)
  ⟨o.result, put s o.state, o.events⟩

/-! ## Results and states -/

section
variable (s : σ) (a : α) (t : Task σ α) (next : α → Task σ β)

@[simp] theorem result_pure : ((pure a : Task σ α) s).result = .ok a := rfl
@[simp] theorem state_pure : ((pure a : Task σ α) s).state = s := rfl

theorem result_bind : ((t >>= next) s).result =
    match (t s).result with
    | .ok a => (next a (t s).state).result
    | .error f => .error f := by
  change (andThen t next s).result = _
  unfold andThen
  split <;> rename_i h <;> rw [h]

theorem state_bind : ((t >>= next) s).state =
    match (t s).result with
    | .ok a => (next a (t s).state).state
    | .error _ => (t s).state := by
  change (andThen t next s).state = _
  unfold andThen
  split <;> rename_i h <;> rw [h]

variable {s t} {a : α} {f : Fault}

theorem result_bind_ok (h : (t s).result = .ok a) :
    ((t >>= next) s).result = (next a (t s).state).result := by rw [result_bind, h]

theorem state_bind_ok (h : (t s).result = .ok a) :
    ((t >>= next) s).state = (next a (t s).state).state := by rw [state_bind, h]

theorem result_bind_error (h : (t s).result = .error f) :
    ((t >>= next) s).result = .error f := by rw [result_bind, h]

theorem state_bind_error (h : (t s).result = .error f) :
    ((t >>= next) s).state = (t s).state := by rw [state_bind, h]

/-- What a task ends with comes from both of its parts. -/
theorem bind_eq_ok {b : β} (h : ((t >>= next) s).result = .ok b) :
    ∃ a, (t s).result = .ok a ∧ (next a (t s).state).result = .ok b := by
  rw [result_bind] at h
  cases ht : (t s).result with
  | ok a => exact ⟨a, rfl, by simpa [ht] using h⟩
  | error f => simp [ht] at h

end

section
variable (s : σ) (a : α) (t : Task σ α) (handle : Fault → Task σ α)

@[simp] theorem result_report (e : Event) : (report e s).result = .ok () := rfl
@[simp] theorem state_report (e : Event) : (report e s).state = s := rfl
@[simp] theorem result_reportAll (es : List Event) : (reportAll es s).result = .ok () := rfl
@[simp] theorem state_reportAll (es : List Event) : (reportAll es s).state = s := rfl
@[simp] theorem result_fail (f : Fault) : ((fail f : Task σ α) s).result = .error f := rfl
@[simp] theorem state_fail (f : Fault) : ((fail f : Task σ α) s).state = s := rfl
@[simp] theorem result_ofResult (r : Except Fault α) : (ofResult r s).result = r := rfl
@[simp] theorem state_ofResult (r : Except Fault α) : (ofResult r s).state = s := rfl
@[simp] theorem result_observe (look : σ → Except Fault α) : (observe look s).result = look s := rfl
@[simp] theorem state_observe (look : σ → Except Fault α) : (observe look s).state = s := rfl
@[simp] theorem result_change (f : σ → σ) : (change f s).result = .ok () := rfl
@[simp] theorem state_change (f : σ → σ) : (change f s).state = f s := rfl
@[simp] theorem result_attempt : (attempt t s).result = .ok (t s).result := rfl
@[simp] theorem state_attempt : (attempt t s).state = (t s).state := rfl

theorem result_recover : (recover t handle s).result =
    match (t s).result with
    | .ok a => .ok a
    | .error f => (handle f (t s).state).result := by
  rw [recover, result_bind_ok _ (result_attempt s t)]
  cases (t s).result <;> rfl

theorem state_recover : (recover t handle s).state =
    match (t s).result with
    | .ok _ => (t s).state
    | .error f => (handle f (t s).state).state := by
  rw [recover, state_bind_ok _ (result_attempt s t)]
  cases (t s).result <;> rfl

variable {handle} in
/-- A task that falls back to a value whatever its fault is. -/
theorem result_recover_value {a : α} (h : ∀ f s, (handle f s).result = .ok a) :
    (recover t handle s).result = .ok ((t s).result.toOption.getD a) := by
  rw [result_recover]
  cases (t s).result with
  | ok b => rfl
  | error f => exact h f _

variable {handle} in
theorem state_recover_value (h : ∀ f s, (handle f s).state = s) :
    (recover t handle s).state = (t s).state := by
  rw [state_recover]
  cases (t s).result with
  | ok b => rfl
  | error f => exact h f _

variable (get : σ → τ) (put : σ → τ → σ) (part : Task τ α)

@[simp] theorem result_onPart : (part.onPart get put s).result = (part (get s)).result := rfl
@[simp] theorem state_onPart : (part.onPart get put s).state = put s (part (get s)).state := rfl

end

end Task
end UsageGraph
