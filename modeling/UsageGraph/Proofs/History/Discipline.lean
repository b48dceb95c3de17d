import UsageGraph.Proofs.History.Extraction
import UsageGraph.Proofs.Tasks

/-! # What an extraction asks of its source

* `HistorySource.recorded`: a source that writes down what it is asked, and is the same otherwise.
* `CarriedOut`: requests that are made in the order of a plan, up to the first one that fails.
* `CarriesOut`: a task on a recorded source does what the task on the source itself does, and makes
  the requests of a plan. `CarriesOut.bind` puts one task after another.
* `visits`: every commit is checked out, and the manifest is read before the next one is.
* `Extractor.extract_disciplined`: the commits are listed; if there are not too many of them they
  are visited, and the first request that fails is the last one and ends the extraction.
-/

namespace UsageGraph
set_option autoImplicit false

/-! ## Requests on record -/

inductive SourceRequest where
  | commits
  | checkout (c : Commit)
  | manifest
  deriving DecidableEq, Repr

structure SourceCall where
  request : SourceRequest
  /-- The fault that the call ended with, if it failed. -/
  fault : Option Fault
  deriving DecidableEq, Repr

structure Recorded (σ : Type) where
  state : σ
  /-- In the order in which they were made. -/
  calls : List SourceCall
  deriving DecidableEq, Repr

variable {σ α β : Type}

def Task.recorded (t : Task σ α) (request : SourceRequest) : Task (Recorded σ) α := fun s =>
  let o := t s.state
  ⟨o.result, ⟨o.state, s.calls ++ [⟨request, o.fault?⟩]⟩, o.events⟩

def HistorySource.recorded (source : HistorySource σ) : HistorySource (Recorded σ) where
  commits := source.commits.recorded .commits
  checkout c := (source.checkout c).recorded (.checkout c)
  manifest := source.manifest.recorded .manifest

/-! ## Plans -/

/-- All requests of a plan, or those up to one that fails; the result is that of the last one. -/
inductive CarriedOut : List SourceRequest → List SourceCall → Except Fault α → Prop where
  | nil (a : α) : CarriedOut [] [] (.ok a)
  | succeeded {request : SourceRequest} {plan : List SourceRequest} {calls : List SourceCall}
      {r : Except Fault α} : CarriedOut plan calls r →
      CarriedOut (request :: plan) (⟨request, none⟩ :: calls) r
  | failed (request : SourceRequest) (plan : List SourceRequest) (f : Fault) :
      CarriedOut (request :: plan) [⟨request, some f⟩] (.error f)

namespace CarriedOut
variable {plan plan' : List SourceRequest} {calls calls' : List SourceCall} {r : Except Fault α}

theorem append_error {f : Fault} (h : CarriedOut plan calls (.error f : Except Fault α))
    (plan' : List SourceRequest) :
    CarriedOut (plan ++ plan') calls (.error f : Except Fault β) := by
  generalize hr : (.error f : Except Fault α) = r at h
  induction h with
  | nil a => cases hr
  | succeeded _ ih => exact .succeeded (ih hr)
  | failed request plan f' =>
    cases hr
    exact .failed request (plan ++ plan') f

theorem append {a : α} {r : Except Fault β} (h : CarriedOut plan calls (.ok a))
    (h' : CarriedOut plan' calls' r) : CarriedOut (plan ++ plan') (calls ++ calls') r := by
  generalize hr : (.ok a : Except Fault α) = r' at h
  induction h with
  | nil a => exact h'
  | succeeded _ ih => exact .succeeded (ih hr)
  | failed request plan f => cases hr

end CarriedOut

/-- The calls keep to the plan, and a run stops where a call fails and ends as that call ends. -/
structure KeepsTo (plan : List SourceRequest) (calls : List SourceCall) (r : Except Fault α) :
    Prop where
  ordered : calls.map SourceCall.request <+: plan
  /-- Nothing is asked after a call that fails. -/
  stops : ∀ before e after, calls = before ++ e :: after → e.fault ≠ none → after = []
  fails_iff : ∀ f, r = .error f ↔ ∃ e ∈ calls, e.fault = some f
  succeeds_iff : (∃ a, r = .ok a) ↔ ∀ e ∈ calls, e.fault = none
  whole : (∃ a, r = .ok a) → calls.map SourceCall.request = plan

theorem CarriedOut.keepsTo {plan : List SourceRequest} {calls : List SourceCall}
    {r : Except Fault α} (h : CarriedOut plan calls r) : KeepsTo plan calls r := by
  induction h with
  | nil a =>
    refine ⟨List.prefix_refl _, fun before e after heq => ?_, fun f => ?_, ?_, fun _ => rfl⟩
    · simp at heq
    · simp
    · simp
  | @succeeded request plan calls r _ ih =>
    refine ⟨?_, fun before e after heq he => ?_, fun f => ?_, ?_, fun hok => ?_⟩
    · exact List.cons_prefix_cons.mpr ⟨rfl, ih.ordered⟩
    · cases before with
      | nil =>
        obtain ⟨rfl, -⟩ := List.cons.inj heq
        exact absurd rfl he
      | cons d before => exact ih.stops before e after (List.cons.inj heq).2 he
    · rw [ih.fails_iff]
      simp
    · rw [ih.succeeds_iff]
      simp
    · exact congrArg (request :: ·) (ih.whole hok)
  | failed request plan f =>
    refine ⟨?_, fun before e after heq _ => ?_, fun f' => ?_, ?_, nofun⟩
    · exact List.cons_prefix_cons.mpr ⟨rfl, List.nil_prefix⟩
    · cases before with
      | nil => exact (List.cons.inj heq).2.symm
      | cons d before => simp at heq
    · simp
    · simp

/-! ## Tasks on a recorded source -/

/-- The first task ends and reports as the second one does, in the same state, and makes the
requests of the plan on the way. -/
def CarriesOut (plan : List SourceRequest) (recorded : Task (Recorded σ) α) (t : Task σ α) :
    Prop :=
  ∀ s calls, ∃ made, recorded ⟨s, calls⟩ =
      ⟨(t s).result, ⟨(t s).state, calls ++ made⟩, (t s).events⟩ ∧
    CarriedOut plan made (t s).result

section
variable {plan plan' : List SourceRequest} {recorded : Task (Recorded σ) α} {t : Task σ α}

theorem carriesOut_recorded (t : Task σ α) (request : SourceRequest) :
    CarriesOut [request] (t.recorded request) t := by
  intro s calls
  refine ⟨[⟨request, (t s).fault?⟩], rfl, ?_⟩
  unfold Outcome.fault?
  cases (t s).result with
  | ok a => exact .succeeded (.nil a)
  | error f => exact .failed request [] f

/-- A task that only reports asks for nothing. -/
theorem carriesOut_const (a : α) (events : List Event) :
    CarriesOut [] (fun s => ⟨.ok a, s, events⟩ : Task (Recorded σ) α)
      (fun s => ⟨.ok a, s, events⟩) := by
  intro s calls
  exact ⟨[], by rw [List.append_nil], .nil a⟩

theorem CarriesOut.bind {next : α → Task σ β} {recordedNext : α → Task (Recorded σ) β}
    (h : CarriesOut plan recorded t)
    (hnext : ∀ a, CarriesOut plan' (recordedNext a) (next a)) :
    CarriesOut (plan ++ plan') (recorded >>= recordedNext) (t >>= next) := by
  intro s calls
  obtain ⟨made, hrun, hmade⟩ := h s calls
  rw [Task.result_bind, Task.state_bind, Task.events_bind]
  cases hresult : (t s).result with
  | error f =>
    rw [hresult] at hrun hmade
    exact ⟨made, Task.bind_of_error hrun, hmade.append_error plan'⟩
  | ok a =>
    rw [hresult] at hrun hmade
    obtain ⟨made', hrun', hmade'⟩ := hnext a (t s).state (calls ++ made)
    refine ⟨made ++ made', ?_, hmade.append hmade'⟩
    rw [Task.bind_of_ok hrun, hrun', List.append_assoc]

end

/-! ## Extractions -/

/-- Every commit is checked out and its manifest is read, one commit after another. -/
def visits (commits : List Commit) : List SourceRequest :=
  commits.flatMap fun c => [.checkout c, .manifest]

namespace Extractor
variable (x : Extractor) (owner : String) (source : HistorySource σ)

theorem carriesOut_replay (cs : List Commit) (previous : Instant) (t : Timeline) :
    CarriesOut (visits cs) (x.replay owner source.recorded cs previous t)
      (x.replay owner source cs previous t) := by
  induction cs generalizing previous t with
  | nil => exact carriesOut_const t []
  | cons c cs ih =>
    have hcheckout := carriesOut_recorded (source.checkout c) (.checkout c)
    have hmanifest := carriesOut_recorded source.manifest .manifest
    refine (carriesOut_const () _).bind fun _ => hcheckout.bind fun _ => hmanifest.bind fun m => ?_
    exact (carriesOut_const () _).bind fun _ => (carriesOut_const () _).bind fun _ => ih _ _

/-- What an extraction does with the commits that it has listed. -/
def afterListing (commits : List Commit) : Task σ History :=
  if x.maxCommits < commits.length then do
    Task.report (x.skippedEvent owner commits.length)
    return ⟨[], lifetime commits, commits.length, true⟩
  else do
    let t ← x.replay owner source commits Int64.minValue .empty
    return ⟨t.intervals owner, lifetime commits, commits.length, false⟩

theorem extract_eq_bind : x.extract owner source = source.commits >>= x.afterListing owner source :=
  rfl

/-- Too many commits are not visited. -/
def planned (commits : List Commit) : List SourceRequest :=
  if x.maxCommits < commits.length then [] else visits commits

theorem carriesOut_afterListing (commits : List Commit) :
    CarriesOut (x.planned commits) (x.afterListing owner source.recorded commits)
      (x.afterListing owner source commits) := by
  rw [planned, afterListing, afterListing]
  split
  · exact (carriesOut_const () _).bind fun _ => carriesOut_const _ []
  · rw [← List.append_nil (visits commits)]
    exact (x.carriesOut_replay owner source commits _ _).bind fun _ => carriesOut_const _ []

section
variable {source} {s : σ}

theorem recorded_of_unlisted {f : Fault} (h : (source.commits s).result = .error f) :
    x.extract owner source.recorded ⟨s, []⟩ = ⟨(x.extract owner source s).result,
      ⟨(x.extract owner source s).state, [⟨.commits, some f⟩]⟩,
      (x.extract owner source s).events⟩ := by
  have hsource : source.commits s =
      ⟨.error f, (source.commits s).state, (source.commits s).events⟩ := by rw [← h]
  have hrecorded : source.recorded.commits ⟨s, []⟩ = ⟨.error f,
      ⟨(source.commits s).state, [⟨.commits, some f⟩]⟩, (source.commits s).events⟩ := by
    rw [← h, ← Outcome.fault?_eq_some.mpr h]
    rfl
  rw [extract_eq_bind, extract_eq_bind, Task.bind_of_error hrecorded, Task.bind_of_error hsource]

theorem recorded_of_listed {commits : List Commit} (h : (source.commits s).result = .ok commits) :
    ∃ walk, x.extract owner source.recorded ⟨s, []⟩ = ⟨(x.extract owner source s).result,
        ⟨(x.extract owner source s).state, ⟨.commits, none⟩ :: walk⟩,
        (x.extract owner source s).events⟩ ∧
      CarriedOut (x.planned commits) walk (x.extract owner source s).result := by
  have hsource : source.commits s =
      ⟨.ok commits, (source.commits s).state, (source.commits s).events⟩ := by rw [← h]
  have hrecorded : source.recorded.commits ⟨s, []⟩ = ⟨.ok commits,
      ⟨(source.commits s).state, [⟨.commits, none⟩]⟩, (source.commits s).events⟩ := by
    rw [← h, ← Outcome.fault?_eq_none.mpr ⟨commits, h⟩]
    rfl
  obtain ⟨walk, hrun, hmade⟩ := x.carriesOut_afterListing owner source commits
    (source.commits s).state [⟨.commits, none⟩]
  rw [extract_eq_bind, extract_eq_bind, Task.bind_of_ok hrecorded, Task.bind_of_ok hsource, hrun]
  exact ⟨walk, rfl, hmade⟩

theorem not_skipped_of_extract {commits : List Commit}
    (h : (source.commits s).result = .ok commits) (hfew : commits.length ≤ x.maxCommits)
    {history : History} (hhistory : (x.extract owner source s).result = .ok history) :
    history.skipped = false := by
  rw [result_extract owner h hfew] at hhistory
  cases hread : (source.readings commits (source.commits s).state).result with
  | error f =>
    rw [hread] at hhistory
    cases hhistory
  | ok ms =>
    rw [hread] at hhistory
    cases hhistory
    rfl

end

/-- However the requests end: the commits are listed first, and nothing else is asked if that fails
or if there are too many of them. Otherwise the commits are visited until a request fails. -/
theorem extract_disciplined (s : σ) : ∃ calls,
    x.extract owner source.recorded ⟨s, []⟩ = ⟨(x.extract owner source s).result,
      ⟨(x.extract owner source s).state, calls⟩, (x.extract owner source s).events⟩ ∧
    ((∃ f, (source.commits s).result = .error f ∧ calls = [⟨.commits, some f⟩] ∧
        (x.extract owner source s).result = .error f) ∨
      ∃ commits, (source.commits s).result = .ok commits ∧
        (x.maxCommits < commits.length ∧ calls = [⟨.commits, none⟩] ∧
            (x.extract owner source s).result = .ok {
              intervals := []
              lifetime := ⟨commits.head?.map Commit.timestamp,
                commits.getLast?.map Commit.timestamp⟩
              commitCount := commits.length
              skipped := true } ∨
          commits.length ≤ x.maxCommits ∧ ∃ walk, calls = ⟨.commits, none⟩ :: walk ∧
            KeepsTo (visits commits) walk (x.extract owner source s).result ∧
            ∀ h, (x.extract owner source s).result = .ok h → h.skipped = false)) := by
  cases hlist : (source.commits s).result with
  | error f =>
    exact ⟨_, x.recorded_of_unlisted owner hlist,
      .inl ⟨f, rfl, rfl, result_extract_of_unlisted owner hlist⟩⟩
  | ok commits =>
    obtain ⟨walk, hrun, hwalk⟩ := x.recorded_of_listed owner hlist
    refine ⟨_, hrun, .inr ⟨commits, rfl, ?_⟩⟩
    rcases Nat.lt_or_ge x.maxCommits commits.length with hmany | hfew
    · rw [planned, if_pos hmany] at hwalk
      have hnone : walk = [] := by
        have hordered := hwalk.keepsTo.ordered
        exact List.map_eq_nil_iff.mp (List.prefix_nil.mp hordered)
      rw [hnone]
      exact .inl ⟨hmany, rfl, result_extract_of_many owner hlist hmany⟩
    · rw [planned, if_neg (Nat.not_lt.mpr hfew)] at hwalk
      exact .inr ⟨hfew, walk, rfl, hwalk.keepsTo,
        fun h hh => x.not_skipped_of_extract owner hlist hfew hh⟩

end Extractor
end UsageGraph
