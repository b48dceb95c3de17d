import UsageGraph.Task

/-! # What tasks keep and what they depend on

* `Outcome.fault?`: the fault that a run ends with, if it fails.
* `Task.bind_of_ok`, `Task.bind_of_error`: a whole run of two tasks in a row.
* `Task.recover_of_ok`, `Task.recover_of_error`: a whole run that may fall back.
* `Task.Keeps`: a property of states that a task keeps, however it ends.
* `Outcome.Alike`: two runs that end alike and report alike, in states that are related.
  `Outcome.Alike.bind` puts them one after another.
-/

namespace UsageGraph
set_option autoImplicit false

variable {σ τ α β : Type}

/-! ## Ends of runs -/

def Outcome.fault? {σ α : Type} (o : Outcome σ α) : Option Fault :=
  match o.result with
  | .ok _ => none
  | .error f => some f

theorem Outcome.fault?_eq_some {σ α : Type} {o : Outcome σ α} {f : Fault} :
    o.fault? = some f ↔ o.result = .error f := by
  unfold fault?
  cases o.result <;> simp

theorem Outcome.fault?_eq_none {σ α : Type} {o : Outcome σ α} :
    o.fault? = none ↔ ∃ a, o.result = .ok a := by
  unfold fault?
  cases o.result <;> simp

namespace Task

section
variable {t : Task σ α} {next : α → Task σ β} {s s' : σ} {events : List Event}

theorem bind_of_ok {a : α} (h : t s = ⟨.ok a, s', events⟩) :
    (t >>= next) s =
      ⟨(next a s').result, (next a s').state, events ++ (next a s').events⟩ := by
  change andThen t next s = _
  rw [andThen, h]

theorem bind_of_error {f : Fault} (h : t s = ⟨.error f, s', events⟩) :
    (t >>= next) s = ⟨.error f, s', events⟩ := by
  change andThen t next s = _
  rw [andThen, h]

theorem bind_of_quiet {a : α} (h : t s = ⟨.ok a, s', []⟩) : (t >>= next) s = next a s' := by
  rw [bind_of_ok h]
  cases next a s'
  rfl

theorem recover_of_ok {a : α} {handle : Fault → Task σ α} (h : t s = ⟨.ok a, s', events⟩) :
    recover t handle s = ⟨.ok a, s', events⟩ := by
  have hattempt : attempt t s = ⟨.ok (.ok a), s', events⟩ := by rw [attempt, h]
  rw [recover, bind_of_ok hattempt]
  exact congrArg _ (List.append_nil events)

theorem recover_of_error {f : Fault} {handle : Fault → Task σ α} (h : t s = ⟨.error f, s', []⟩) :
    recover t handle s = handle f s' := by
  have hattempt : attempt t s = ⟨.ok (.error f), s', []⟩ := by rw [attempt, h]
  rw [recover, bind_of_quiet hattempt]

end

end Task

/-! ## Kept properties -/

namespace Task

def Keeps (P : σ → Prop) (t : Task σ α) : Prop := ∀ s, P s → P (t s).state

variable {P : σ → Prop} {t : Task σ α}

theorem keeps_of_state (h : ∀ s, (t s).state = s) : t.Keeps P := by
  intro s hs
  rw [h]
  exact hs

theorem Keeps.bind (ht : t.Keeps P) {next : α → Task σ β} (hnext : ∀ a, (next a).Keeps P) :
    (t >>= next).Keeps P := by
  intro s hs
  rw [state_bind]
  cases (t s).result with
  | ok a => exact hnext a _ (ht s hs)
  | error f => exact ht s hs

theorem Keeps.attempt (ht : t.Keeps P) : t.attempt.Keeps P := ht

theorem Keeps.recover (ht : t.Keeps P) {handle : Fault → Task σ α}
    (hhandle : ∀ f, (handle f).Keeps P) : (t.recover handle).Keeps P := by
  refine ht.attempt.bind fun r => ?_
  cases r with
  | ok a => exact keeps_of_state fun _ => rfl
  | error f => exact hhandle f

end Task

/-! ## Runs alike -/

theorem Task.events_bind (t : Task σ α) (next : α → Task σ β) (s : σ) :
    ((t >>= next) s).events =
      match (t s).result with
      | .ok a => (t s).events ++ (next a (t s).state).events
      | .error _ => (t s).events := by
  change (andThen t next s).events = _
  unfold andThen
  split <;> rename_i h <;> rw [h]

namespace Outcome

structure Alike (R : σ → σ → Prop) (o o' : Outcome σ α) : Prop where
  result : o.result = o'.result
  events : o.events = o'.events
  state : R o.state o'.state

variable {R Q : σ → σ → Prop} {t u : Task σ α} {s s' : σ}

theorem Alike.mono {o o' : Outcome σ α} (h : o.Alike R o')
    (hRQ : R o.state o'.state → Q o.state o'.state) : o.Alike Q o' :=
  ⟨h.result, h.events, hRQ h.state⟩

theorem Alike.bind {next next' : α → Task σ β} (h : (t s).Alike R (u s'))
    (hnext : ∀ a, (t s).result = .ok a → R (t s).state (u s').state →
      (next a (t s).state).Alike R (next' a (u s').state)) :
    ((t >>= next) s).Alike R ((u >>= next') s') := by
  obtain ⟨hresult, hevents, hstate⟩ := h
  cases ht : (t s).result with
  | error f =>
    have hu : (u s').result = .error f := hresult ▸ ht
    refine ⟨?_, ?_, ?_⟩
    · rw [Task.result_bind_error _ ht, Task.result_bind_error _ hu]
    · rw [Task.events_bind, Task.events_bind, ht, hu]
      exact hevents
    · rw [Task.state_bind_error _ ht, Task.state_bind_error _ hu]
      exact hstate
  | ok a =>
    have hu : (u s').result = .ok a := hresult ▸ ht
    obtain ⟨hresult', hevents', hstate'⟩ := hnext a ht hstate
    refine ⟨?_, ?_, ?_⟩
    · rw [Task.result_bind_ok _ ht, Task.result_bind_ok _ hu, hresult']
    · rw [Task.events_bind, Task.events_bind, ht, hu, hevents]
      exact congrArg _ hevents'
    · rw [Task.state_bind_ok _ ht, Task.state_bind_ok _ hu]
      exact hstate'

/-- A task that leaves the state as it is and does not look at it. -/
theorem alike_const (h : R s s') (r : Except Fault α) (es : List Event) :
    Alike R ⟨r, s, es⟩ ⟨r, s', es⟩ := ⟨rfl, rfl, h⟩

theorem Alike.attempt (h : (t s).Alike R (u s')) : (t.attempt s).Alike R (u.attempt s') :=
  ⟨congrArg Except.ok h.result, h.events, h.state⟩

theorem Alike.recover (h : (t s).Alike R (u s')) {handle : Fault → Task σ α}
    (hhandle : ∀ f s s', R s s' → (handle f s).Alike R (handle f s')) :
    (t.recover handle s).Alike R (u.recover handle s') := by
  refine h.attempt.bind fun r _ hstate => ?_
  cases r with
  | ok a => exact alike_const hstate _ _
  | error f => exact hhandle f _ _ hstate

theorem Alike.onPart {S : τ → τ → Prop} {get : σ → τ} {put : σ → τ → σ} {t u : Task τ α}
    (h : (t (get s)).Alike S (u (get s')))
    (hput : ∀ p p', S p p' → R (put s p) (put s' p')) :
    (t.onPart get put s).Alike R (u.onPart get put s') :=
  ⟨h.result, h.events, hput _ _ h.state⟩

/-- A part that is the same in both states is the same afterwards. -/
theorem alike_onPart_of_eq {get : σ → τ} {put : σ → τ → σ} (t : Task τ α) (h : get s = get s')
    (hput : ∀ p, R (put s p) (put s' p)) : (t.onPart get put s).Alike R (t.onPart get put s') := by
  have hsame : (t (get s)).Alike Eq (t (get s')) := by
    rw [h]
    exact ⟨rfl, rfl, rfl⟩
  refine hsame.onPart ?_
  rintro p _ rfl
  exact hput p

end Outcome
end UsageGraph
