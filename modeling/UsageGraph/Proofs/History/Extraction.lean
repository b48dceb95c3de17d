import UsageGraph.History.Extraction
import UsageGraph.Proofs.History.Run

/-! # What an extraction computes

An extraction reads manifests from a source that may fail and keeps a timeline of them. Here the
two are taken apart.

* `HistorySource.readings`: the walk by itself, every checkout with the manifest that is read there.
* `moments`: what every commit declares, dated no earlier than any commit before it.
* `Timeline.follow`: the timeline after dated declarations.
* `Extractor.result_extract`: an extraction ends as its walk ends; where the walk ends well, the
  extraction gives the intervals of the timeline over its moments.
-/

namespace UsageGraph
set_option autoImplicit false

/-! ## The walk -/

namespace HistorySource
variable {σ : Type} (source : HistorySource σ)

def readings : List Commit → Task σ (List (Option Manifest))
  | [] => return []
  | c :: rest => do
    source.checkout c
    let m ← source.manifest
    let ms ← readings rest
    return m :: ms

variable {source} {s : σ} {c : Commit} {cs : List Commit}

theorem result_readings_cons_of_error {f : Fault} (h : (source.checkout c s).result = .error f) :
    (source.readings (c :: cs) s).result = .error f := by
  rw [readings, Task.result_bind_error _ h]

theorem result_readings_cons_of_unread {f : Fault} (h : (source.checkout c s).result = .ok ())
    (hm : (source.manifest (source.checkout c s).state).result = .error f) :
    (source.readings (c :: cs) s).result = .error f := by
  rw [readings, Task.result_bind_ok _ h, Task.result_bind_error _ hm]

theorem result_readings_cons {m : Option Manifest} (h : (source.checkout c s).result = .ok ())
    (hm : (source.manifest (source.checkout c s).state).result = .ok m) :
    (source.readings (c :: cs) s).result =
      (source.readings cs (source.manifest (source.checkout c s).state).state).result.map
        (m :: ·) := by
  rw [readings, Task.result_bind_ok _ h, Task.result_bind_ok _ hm, Task.result_bind]
  cases (source.readings cs (source.manifest (source.checkout c s).state).state).result <;> rfl

/-- There is a reading for every commit. -/
theorem length_readings {ms : List (Option Manifest)} (h : (source.readings cs s).result = .ok ms) :
    ms.length = cs.length := by
  induction cs generalizing s ms with
  | nil => cases h; rfl
  | cons c cs ih =>
    obtain ⟨-, -, h⟩ := Task.bind_eq_ok _ h
    obtain ⟨m, -, h⟩ := Task.bind_eq_ok _ h
    obtain ⟨rest, hrest, h⟩ := Task.bind_eq_ok _ h
    cases h
    rw [List.length_cons, List.length_cons, ih hrest]

/-- A source whose manifests are written down, by commit. Its state is the manifest of the
checkout. -/
def written (script : List (Commit × Option Manifest)) : HistorySource (Option Manifest) where
  commits := return script.map Prod.fst
  checkout c := Task.change fun _ => (script.lookup c).join
  manifest := Task.state

def declaring (dependencies : List (String × String)) : Manifest :=
  ⟨none, none, [], Table.ofList dependencies, ""⟩

/-- The clock of the second commit is behind, and the last commit has no manifest. -/
def backwards : HistorySource (Option Manifest) := written [
  (⟨"a0", 100⟩, some (declaring [("c/d", "1.0.0")])),
  (⟨"a1", 50⟩, some (declaring [("c/d", "2.0.0")])),
  (⟨"a2", 200⟩, none)]

end HistorySource

/-! ## Dating the commits -/

/-- The latest timestamp among some commits and an instant. -/
def latestSince (t : Instant) (commits : List Commit) : Instant :=
  commits.foldl (fun t c => Extractor.later c.timestamp t) t

def momentsSince (t : Instant) (commits : List Commit) (readings : List (Option Manifest)) :
    List (Instant × Table String) :=
  ((List.range commits.length).map fun n => latestSince t (commits.take (n + 1))).zip
    (readings.map Extractor.declared)

/-- Every commit counts as made at the latest timestamp up to its own. -/
def moments (commits : List Commit) (readings : List (Option Manifest)) :
    List (Instant × Table String) := momentsSince Int64.minValue commits readings

theorem le_later (a b : Instant) : b ≤ Extractor.later a b := by
  unfold Extractor.later
  split
  · exact Int64.le_refl b
  · next h => exact Int64.not_lt.mp h

theorem momentsSince_cons (t : Instant) (c : Commit) (cs : List Commit) (m : Option Manifest)
    (ms : List (Option Manifest)) : momentsSince t (c :: cs) (m :: ms) =
      (Extractor.later c.timestamp t, Extractor.declared m) ::
        momentsSince (Extractor.later c.timestamp t) cs ms := by
  rw [momentsSince, List.length_cons, List.range_succ_eq_map, List.map_cons, List.map_cons,
    List.zip_cons_cons, List.map_map]
  rfl

theorem le_of_mem_momentsSince {t : Instant} {cs : List Commit} {ms : List (Option Manifest)}
    {x : Instant × Table String} (h : x ∈ momentsSince t cs ms) : t ≤ x.1 := by
  induction cs generalizing t ms with
  | nil => cases h
  | cons c cs ih =>
    cases ms with
    | nil => simp [momentsSince] at h
    | cons m ms =>
      rw [momentsSince_cons] at h
      rcases List.mem_cons.mp h with rfl | h
      · exact le_later _ _
      · exact Int64.le_trans (le_later _ _) (ih h)

theorem chronological_momentsSince (t : Instant) (cs : List Commit) (ms : List (Option Manifest)) :
    Chronological (momentsSince t cs ms) := by
  induction cs generalizing t ms with
  | nil => exact .nil
  | cons c cs ih =>
    cases ms with
    | nil => simp [momentsSince, Chronological]
    | cons m ms =>
      rw [momentsSince_cons]
      exact .cons (fun x hx => le_of_mem_momentsSince hx) (ih _ ms)

/-! ## The timeline over dated declarations -/

namespace Timeline
variable (owner : String) (resolve : String → String → String)

def follow (t : Timeline) (xs : List (Instant × Table String)) : Timeline :=
  xs.foldl (fun t x => advance owner x.1 resolve x.2 t) t

/-- What dated tables say of one dependency. -/
def saidOf (d : String) (xs : List (Instant × Table String)) :
    List (Instant × Option Declaration) :=
  xs.map fun x => (x.1, declaration resolve x.2 d)

theorem track_follow (xs : List (Instant × Table String)) (d : String) :
    (follow owner resolve empty xs).track d = Track.follow owner d (saidOf resolve d xs) := by
  induction xs using List.reverseRecOn with
  | nil => rfl
  | append_singleton xs x ih =>
    rw [follow, List.foldl_append, saidOf, List.map_append, List.map_singleton,
      Track.follow_concat]
    exact (track_advance resolve x.2 _ d).trans (by rw [← follow, ih]; rfl)

theorem chronological_saidOf {xs : List (Instant × Table String)} (h : Chronological xs)
    (d : String) : Chronological (saidOf resolve d xs) := List.pairwise_map.mpr h

end Timeline

/-! ## Extractions -/

namespace Extractor
variable {σ : Type} (x : Extractor) (owner : String) (source : HistorySource σ)

theorem result_replay (cs : List Commit) (previous : Instant) (t : Timeline) (s : σ) :
    (x.replay owner source cs previous t s).result = (source.readings cs s).result.map fun ms =>
      Timeline.follow owner x.resolver.resolve t (momentsSince previous cs ms) := by
  induction cs generalizing previous t s with
  | nil => rfl
  | cons c cs ih =>
    rw [replay, Task.result_bind_ok _ (Task.result_reportAll s _), Task.state_reportAll]
    cases hc : (source.checkout c s).result with
    | error f => rw [Task.result_bind_error _ hc, HistorySource.result_readings_cons_of_error hc]; rfl
    | ok =>
      rw [Task.result_bind_ok _ hc]
      cases hm : (source.manifest (source.checkout c s).state).result with
      | error f =>
        rw [Task.result_bind_error _ hm, HistorySource.result_readings_cons_of_unread hc hm]
        rfl
      | ok m =>
        rw [Task.result_bind_ok _ hm, HistorySource.result_readings_cons hc hm,
          Task.result_bind_ok _ (Task.result_reportAll _ _), Task.state_reportAll,
          Task.result_bind_ok _ (Task.result_reportAll _ _), Task.state_reportAll, ih]
        cases (source.readings cs (source.manifest (source.checkout c s).state).state).result with
        | error f => rfl
        | ok ms => simp [Except.map, momentsSince_cons, Timeline.follow]

/-- Without published versions every range stands for itself. -/
def unpublished : Extractor := ⟨⟨⟨.empty⟩, .highest⟩, 10⟩

/-- The history that some readings make. -/
def historyOf (commits : List Commit) (ms : List (Option Manifest)) : History where
  intervals := (Timeline.follow owner x.resolver.resolve .empty (moments commits ms)).intervals owner
  lifetime := lifetime commits
  commitCount := commits.length
  skipped := false

variable {x source} {s : σ} {commits : List Commit}

theorem result_extract_of_unlisted {f : Fault} (h : (source.commits s).result = .error f) :
    (x.extract owner source s).result = .error f := by
  rw [extract, Task.result_bind_error _ h]

theorem result_extract_of_many (h : (source.commits s).result = .ok commits)
    (hmany : x.maxCommits < commits.length) :
    (x.extract owner source s).result =
      .ok ⟨[], UsageGraph.lifetime commits, commits.length, true⟩ := by
  rw [extract, Task.result_bind_ok _ h, if_pos hmany]
  rfl

theorem result_extract (h : (source.commits s).result = .ok commits)
    (hfew : commits.length ≤ x.maxCommits) :
    (x.extract owner source s).result =
      (source.readings commits (source.commits s).state).result.map (x.historyOf owner commits) := by
  rw [extract, Task.result_bind_ok _ h, if_neg (Nat.not_lt.mpr hfew), Task.result_bind,
    result_replay]
  cases (source.readings commits (source.commits s).state).result <;> rfl

theorem result_extract_of_readings {ms : List (Option Manifest)}
    (h : (source.commits s).result = .ok commits) (hfew : commits.length ≤ x.maxCommits)
    (hread : (source.readings commits (source.commits s).state).result = .ok ms) :
    (x.extract owner source s).result = .ok (x.historyOf owner commits ms) := by
  rw [result_extract owner h hfew, hread]
  rfl

/-- A history that is given was either skipped, because it is too long, or made of readings. -/
theorem readings_of_extract {r : History} (h : (x.extract owner source s).result = .ok r) :
    ∃ commits, (source.commits s).result = .ok commits ∧
      (x.maxCommits < commits.length ∧ r.intervals = [] ∨
      ∃ ms, (source.readings commits (source.commits s).state).result = .ok ms ∧
        r = x.historyOf owner commits ms) := by
  cases hc : (source.commits s).result with
  | error f => rw [result_extract_of_unlisted owner hc] at h; cases h
  | ok commits =>
    refine ⟨commits, rfl, ?_⟩
    rcases Nat.lt_or_ge x.maxCommits commits.length with hmany | hfew
    · rw [result_extract_of_many owner hc hmany] at h
      cases h
      exact .inl ⟨hmany, rfl⟩
    · rw [result_extract owner hc hfew] at h
      cases hm : (source.readings commits (source.commits s).state).result with
      | error f => rw [hm] at h; cases h
      | ok ms =>
        rw [hm] at h
        cases h
        exact .inr ⟨ms, rfl, rfl⟩

theorem extract_eq_ok {r : History} (h : (x.extract owner source s).result = .ok r) :
    r.intervals = [] ∨ ∃ commits ms, r = x.historyOf owner commits ms := by
  obtain ⟨commits, -, ⟨-, hskipped⟩ | ⟨ms, -, hr⟩⟩ := readings_of_extract owner h
  · exact .inl hskipped
  · exact .inr ⟨commits, ms, hr⟩

end Extractor
end UsageGraph
