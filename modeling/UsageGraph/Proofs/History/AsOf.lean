import UsageGraph.Proofs.History.Extraction

/-! # What was declared at an instant

The intervals of an extraction answer which version of a dependency a repository declared at an
instant.

* `exists_covers_iff`: an interval covers an instant if and only if the last commit up to that
  instant declares its version.
* `declared_at_start`: an interval starts with a commit that declares its range.
* `Extractor.extract_as_of`: both of them, for an extraction.
-/

namespace UsageGraph
set_option autoImplicit false

namespace Timeline
variable (owner : String) (resolve : String → String → String)
  {xs : List (Instant × Table String)}

theorem map_version_eq_some {declared : Table String} {d version : String} :
    (declaration resolve declared d).map Declaration.version = some version ↔
      ∃ range, declared.get? d = some range ∧ resolve d range = version := by
  simp [declaration]

theorem exists_covers_iff (h : Chronological xs) (d version : String) (t : Instant) :
    (∃ i ∈ (follow owner resolve .empty xs).intervals owner,
      i.dependency = d ∧ i.version = version ∧ i.Covers t) ↔
    ∃ declared, AsOf xs t declared ∧
      ∃ range, declared.get? d = some range ∧ resolve d range = version := by
  have htrack : (∃ i ∈ (follow owner resolve .empty xs).intervals owner,
      i.dependency = d ∧ i.version = version ∧ i.Covers t) ↔
      ∃ i ∈ (Track.follow owner d (saidOf resolve d xs)).intervals owner d,
        i.version = version ∧ i.Covers t := by
    rw [← track_follow]
    constructor
    · rintro ⟨i, hi, rfl, hcovers⟩
      exact ⟨i, mem_intervals.mp hi, hcovers⟩
    · rintro ⟨i, hi, hcovers⟩
      obtain rfl := dependency_of_mem_track hi
      exact ⟨i, mem_intervals.mpr hi, rfl, hcovers⟩
  rw [htrack, ← Track.covers_iff, Track.covers_follow owner d (chronological_saidOf resolve h d)]
  simp only [saidOf, asOf_map (fun declared => declaration resolve declared d)]
  constructor
  · rintro ⟨_, ⟨declared, hasof, rfl⟩, hv⟩
    exact ⟨declared, hasof, (map_version_eq_some resolve).mp hv⟩
  · rintro ⟨declared, hasof, hv⟩
    exact ⟨_, ⟨declared, hasof, rfl⟩, (map_version_eq_some resolve).mpr hv⟩

theorem mem_saidOf {d range version : String} {start : Instant} :
    (start, some ⟨range, version⟩) ∈ saidOf resolve d xs ↔
      ∃ declared, (start, declared) ∈ xs ∧ declared.get? d = some range ∧
        resolve d range = version := by
  rw [saidOf, List.mem_map]
  constructor
  · rintro ⟨⟨start', declared⟩, hmem, he⟩
    obtain ⟨rfl, hd⟩ := Prod.mk.inj he
    obtain ⟨range', hrange, hdecl⟩ := Option.map_eq_some_iff.mp hd
    cases hdecl
    exact ⟨declared, hmem, hrange, rfl⟩
  · rintro ⟨declared, hmem, hrange, rfl⟩
    exact ⟨(start, declared), hmem, by simp [declaration, hrange]⟩

theorem declared_at_start {i : Interval}
    (h : i ∈ (follow owner resolve .empty xs).intervals owner) :
    i.owner = owner ∧ ∃ declared, (i.start, declared) ∈ xs ∧
      declared.get? i.dependency = some i.range ∧ resolve i.dependency i.range = i.version := by
  rw [mem_intervals, track_follow] at h
  obtain ⟨howner, hmem⟩ := Track.from_follow owner i.dependency _ i h
  exact ⟨howner, (mem_saidOf resolve).mp hmem⟩

end Timeline

namespace Extractor
variable {σ : Type}

theorem owner_of_extract {x : Extractor} {source : HistorySource σ} {s : σ} {owner : String}
    {history : History} (h : (x.extract owner source s).result = .ok history) :
    ∀ i ∈ history.intervals, i.owner = owner := by
  intro i hi
  rcases extract_eq_ok owner h with hskipped | ⟨commits, ms, rfl⟩
  · rw [hskipped] at hi
    cases hi
  · exact (Timeline.declared_at_start owner x.resolver.resolve hi).1

/-- The intervals of an extraction say what the last commit up to any instant declares, and each of
them starts with a commit that declares it. -/
theorem extract_as_of {x : Extractor} {source : HistorySource σ} {s : σ} {commits : List Commit}
    {ms : List (Option Manifest)} (owner : String)
    (hcommits : (source.commits s).result = .ok commits)
    (hfew : commits.length ≤ x.maxCommits)
    (hread : (source.readings commits (source.commits s).state).result = .ok ms) :
    ∃ history, (x.extract owner source s).result = .ok history ∧
      (∀ d version t,
        (∃ i ∈ history.intervals, i.dependency = d ∧ i.version = version ∧ i.Covers t) ↔
          ∃ declared, AsOf (moments commits ms) t declared ∧
            ∃ range, declared.get? d = some range ∧ x.resolver.resolve d range = version) ∧
      ∀ i ∈ history.intervals, ∃ declared, (i.start, declared) ∈ moments commits ms ∧
        declared.get? i.dependency = some i.range ∧
          x.resolver.resolve i.dependency i.range = i.version := by
  refine ⟨x.historyOf owner commits ms, result_extract_of_readings owner hcommits hfew hread,
    fun d version t => ?_, fun i hi => ?_⟩
  · exact Timeline.exists_covers_iff owner x.resolver.resolve
      (chronological_momentsSince _ commits ms) d version t
  · exact (Timeline.declared_at_start owner x.resolver.resolve hi).2

/-- The second commit is dated before the first one and ends none of the time of the first. -/
theorem extract_as_of_backwards :
    ∃ history, (unpublished.extract "a/b" HistorySource.backwards none).result = .ok history ∧
      (∃ i ∈ history.intervals, i.dependency = "c/d" ∧ i.version = "2.0.0" ∧ i.Covers 150) ∧
      ¬∃ i ∈ history.intervals, i.dependency = "c/d" ∧ i.version = "1.0.0" ∧ i.Covers 100 := by
  obtain ⟨history, hresult, hcovers, -⟩ :=
    @extract_as_of _ unpublished HistorySource.backwards none _ _ "a/b" rfl (by decide) rfl
  refine ⟨history, hresult, (hcovers _ _ _).mpr ?_, fun h => ?_⟩
  · refine ⟨_, ⟨1, 100, rfl, by decide, fun m x hm hx => ?_⟩, "2.0.0", rfl, rfl⟩
    match m with
    | 2 => cases hx; decide
    | m + 3 => cases hx
  · obtain ⟨declared, ⟨n, start, hn, hle, hlast⟩, range, hrange, hversion⟩ := (hcovers _ _ _).mp h
    match n with
    | 0 => exact absurd (hlast 1 _ (by omega) rfl) (by decide)
    | 1 =>
      cases hn
      cases hrange
      exact absurd hversion (by decide)
    | 2 =>
      cases hn
      exact absurd hle (by decide)
    | n + 3 => cases hn

end Extractor
end UsageGraph
