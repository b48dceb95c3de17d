import UsageGraph.Proofs.History.WellFormed

/-! # Dependencies do not influence each other

What an extraction says of one dependency follows from the dates of the commits, from what they
declare for that dependency and from what is published for it.

* `datesSince`: the dates of commits, from their timestamps alone.
* `Timeline.saidOf_momentsSince`: what dated readings say of a dependency, from their dates and from
  what each of them says of it.
* `Extractor.extract_independent`: two extractions that agree on these give the same intervals.
-/

namespace UsageGraph
set_option autoImplicit false

/-- Every timestamp counts as no earlier than those before it. -/
def datesSince (t : Instant) (stamps : List Instant) : List Instant :=
  (List.range stamps.length).map fun n =>
    (stamps.take (n + 1)).foldl (fun t stamp => Extractor.later stamp t) t

theorem momentsSince_eq (t : Instant) (cs : List Commit) (ms : List (Option Manifest)) :
    momentsSince t cs ms =
      (datesSince t (cs.map Commit.timestamp)).zip (ms.map Extractor.declared) := by
  rw [momentsSince, datesSince, List.length_map]
  refine congrArg (List.zip · _) (List.map_congr_left fun n _ => ?_)
  rw [← List.map_take, List.foldl_map]
  rfl

namespace Timeline
variable (owner : String) (resolve : String → String → String)

theorem saidOf_momentsSince (d : String) (t : Instant) (cs : List Commit)
    (ms : List (Option Manifest)) : saidOf resolve d (momentsSince t cs ms) =
      (datesSince t (cs.map Commit.timestamp)).zip
        (ms.map fun m => declaration resolve (Extractor.declared m) d) := by
  rw [saidOf, momentsSince_eq, List.zip_map_right, List.zip_map_right, List.map_map]
  rfl

end Timeline

/-- The commits of `backwards` among another dependency, which the last commit still declares. -/
def HistorySource.crowded : HistorySource (Option Manifest) := written [
  (⟨"b0", 100⟩, some (declaring [("c/d", "1.0.0"), ("e/f", "1.0.0 <= v < 2.0.0")])),
  (⟨"b1", 50⟩, some (declaring [("c/d", "2.0.0")])),
  (⟨"b2", 200⟩, some (declaring [("e/f", "1.0.0")]))]

namespace Extractor
open HistorySource
variable {σ τ : Type}

/-- A catalog that lists versions of the other dependency. -/
def published : Extractor := ⟨⟨.ofEntries [("e/f", ["1.0.0", "1.1.0"])], .highest⟩, 3⟩

/-- The intervals of a dependency are the same after two histories that are dated alike and declare
the same for it, where the same is published for it. -/
theorem extract_independent {x x' : Extractor} {source : HistorySource σ}
    {source' : HistorySource τ} {s : σ} {s' : τ} {commits commits' : List Commit}
    {ms ms' : List (Option Manifest)} (owner : String) {d : String}
    (hcommits : (source.commits s).result = .ok commits)
    (hcommits' : (source'.commits s').result = .ok commits')
    (hfew : commits.length ≤ x.maxCommits) (hfew' : commits'.length ≤ x'.maxCommits)
    (hread : (source.readings commits (source.commits s).state).result = .ok ms)
    (hread' : (source'.readings commits' (source'.commits s').state).result = .ok ms')
    (hdates : commits.map Commit.timestamp = commits'.map Commit.timestamp)
    (hpolicy : x.resolver.policy = x'.resolver.policy)
    (hversions : x.resolver.catalog.versions d = x'.resolver.catalog.versions d)
    (hdeclared : ms.map (fun m => (declared m).get? d) = ms'.map fun m => (declared m).get? d) :
    ∃ history history', (x.extract owner source s).result = .ok history ∧
      (x'.extract owner source' s').result = .ok history' ∧
      history.intervals.filter (·.dependency = d) =
        history'.intervals.filter (·.dependency = d) := by
  have hresolve : x.resolver.resolve d = x'.resolver.resolve d := by
    funext range
    rw [Resolver.resolve, Resolver.resolve, hpolicy, hversions]
  have hsaid : ms.map (fun m => Timeline.declaration x.resolver.resolve (declared m) d) =
      ms'.map fun m => Timeline.declaration x'.resolver.resolve (declared m) d := by
    have hmap := congrArg (List.map (Option.map fun range =>
      (⟨range, x.resolver.resolve d range⟩ : Declaration))) hdeclared
    rw [List.map_map, List.map_map] at hmap
    simp only [Timeline.declaration, ← hresolve]
    exact hmap
  refine ⟨x.historyOf owner commits ms, x'.historyOf owner commits' ms',
    result_extract_of_readings owner hcommits hfew hread,
    result_extract_of_readings owner hcommits' hfew' hread', ?_⟩
  rw [historyOf, historyOf, moments, moments,
    Timeline.filter_intervals_follow owner _ (chronological_momentsSince _ _ _),
    Timeline.filter_intervals_follow owner _ (chronological_momentsSince _ _ _),
    Timeline.saidOf_momentsSince, Timeline.saidOf_momentsSince, hdates, hsaid]

/-- What is said of the dependency is read off the history in which it stands alone. -/
theorem extract_independent_crowded : ∃ history,
    (published.extract "a/b" crowded none).result = .ok history ∧
    history.intervals.filter (·.dependency = "c/d") =
      [⟨"a/b", "c/d", "2.0.0", "2.0.0", 100, some 200⟩] := by
  obtain ⟨history, history', hresult, hresult', hsame⟩ :=
    @extract_independent _ _ unpublished published backwards crowded none none _ _ _ _ "a/b" "c/d"
      rfl rfl (by decide) (by decide) rfl rfl (by decide) rfl (by decide) (by decide)
  have halone : (unpublished.extract "a/b" backwards none).result =
      .ok ⟨[⟨"a/b", "c/d", "2.0.0", "2.0.0", 100, some 200⟩], ⟨some 100, some 200⟩, 3, false⟩ := by
    decide +kernel
  obtain rfl := Except.ok.inj (halone.symm.trans hresult)
  exact ⟨history', hresult', hsame.symm.trans rfl⟩

end Extractor
end UsageGraph
