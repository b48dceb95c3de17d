import UsageGraph.Proofs.History.Extension
import Mathlib.Data.List.Pairwise

/-! # Intervals end only where something changes

An interval goes on until a commit declares its dependency with another version or not at all. Such
a commit ends it even if a commit of the same instant takes the change back: the interval between
the two is none, and those before and after it touch.

* `Declares`: a table says that a dependency is there with a version.
* `Track.stopped_follow`, `Timeline.stopped_by`: what has ended was ended by a change.
* `Maximal`: intervals that are cut by every change of their version and by nothing else.
* `Extractor.extract_maximal`: those of an extraction are. `Extractor.extract_taken_back` has two of
  one version that touch.
-/

namespace UsageGraph
set_option autoImplicit false

/-- The range of the dependency stands for the version. -/
def Declares (resolve : String → String → String) (declared : Table String) (d version : String) :
    Prop := ∃ range, declared.get? d = some range ∧ resolve d range = version

/-- Intervals that are cut where a commit does not declare their version, and nowhere else. -/
structure Maximal (resolve : String → String → String) (xs : List (Instant × Table String))
    (is : List Interval) : Prop where
  /-- Intervals of one version touch only where a change was taken back at the instant at which it
  was made. -/
  touch : ∀ i ∈ is, ∀ j ∈ is, i.dependency = j.dependency → i.stop = some j.start →
    i.version = j.version → ∃ (n m : Nat) (declared declared' : Table String), n < m ∧
      xs[n]? = some (j.start, declared) ∧ ¬Declares resolve declared i.dependency i.version ∧
      xs[m]? = some (j.start, declared') ∧ Declares resolve declared' i.dependency i.version
  /-- A period in which all commits declare the version lies within one interval. -/
  whole : ∀ d version a b,
    (∃ declared, AsOf xs a declared ∧ Declares resolve declared d version) →
    (∀ x ∈ xs, a < x.1 → x.1 ≤ b → Declares resolve x.2 d version) →
    ∃ i ∈ is, i.dependency = d ∧ i.version = version ∧
      ∀ j ∈ is, j.dependency = d → ∀ t, a ≤ t → t ≤ b → (j.Covers t ↔ j = i)
  /-- No interval reaches beyond a commit that does not declare its version. -/
  cut : ∀ x ∈ xs, ∀ i ∈ is, ¬Declares resolve x.2 i.dependency i.version → i.start < x.1 →
    ∃ stop, i.stop = some stop ∧ stop ≤ x.1

/-! ## One track -/

namespace Track

/-- What has ended was ended by a value that declares something else. -/
theorem stopped_follow (owner dependency : String) (xs : List (Instant × Option Declaration)) :
    ∀ i ∈ (follow owner dependency xs).ended, ∃ x ∈ xs,
      i.stop = some x.1 ∧ x.2.map Declaration.version ≠ some i.version := by
  induction xs using List.reverseRecOn with
  | nil => exact fun i hi => (List.not_mem_nil hi).elim
  | append_singleton xs x ih =>
    have hbefore : ∀ i ∈ (follow owner dependency xs).ended, ∃ y ∈ xs ++ [x],
        i.stop = some y.1 ∧ y.2.map Declaration.version ≠ some i.version := by
      intro i hi
      obtain ⟨y, hy, hchange⟩ := ih i hi
      exact ⟨y, List.mem_append_left _ hy, hchange⟩
    rw [follow_concat]
    rcases @step_cases owner dependency x.1 (follow owner dependency xs) x.2 with
      hsame | ⟨hchanged, hstep⟩
    · rwa [hsame]
    · rw [hstep]
      intro i hi
      rcases List.mem_append.mp hi with hi | hi
      · exact hbefore i hi
      · cases hc : (follow owner dependency xs).current with
        | none =>
          rw [hc] at hi
          cases hi
        | some o =>
          rw [hc, Option.elim_some, mem_finished] at hi
          obtain ⟨-, rfl⟩ := hi
          exact ⟨x, List.mem_concat_self, rfl, hchanged o hc⟩

end Track

/-! ## Whole timelines -/

/-- Of intervals that follow one another only one covers an instant. -/
theorem eq_of_covers {is : List Interval} (h : is.Pairwise Interval.Precedes) {i j : Interval}
    (hi : i ∈ is) (hj : j ∈ is) {t : Instant} (hit : i.Covers t) (hjt : j.Covers t) : j = i := by
  have hno : ∀ {i j : Interval}, i.Covers t → j.Covers t → ¬i.Precedes j := by
    rintro i j hit hjt ⟨-, stop, hstop, hle⟩
    have hlt := hit.2 stop hstop
    have hstart := hjt.1
    rw [Int64.lt_iff_toInt_lt] at hlt
    rw [Int64.le_iff_toInt_le] at hle hstart
    omega
  by_contra hne
  have hsymm : Std.Symm fun i j : Interval => i.Precedes j ∨ j.Precedes i := ⟨fun _ _ => Or.symm⟩
  have hapart : is.Pairwise fun i j => i.Precedes j ∨ j.Precedes i := h.imp .inl
  rcases hapart.forall hj hi hne with hji | hij
  · exact hno hjt hit hji
  · exact hno hit hjt hij

namespace Timeline
variable (owner : String) (resolve : String → String → String)
  {xs : List (Instant × Table String)}

theorem stopped_by {i : Interval} (hi : i ∈ (follow owner resolve .empty xs).intervals owner)
    {stop : Instant} (hstop : i.stop = some stop) :
    ∃ declared, (stop, declared) ∈ xs ∧ ¬Declares resolve declared i.dependency i.version := by
  rw [mem_intervals, track_follow] at hi
  rcases Track.mem_intervals.mp hi with hended | ⟨o, -, hi'⟩
  · obtain ⟨y, hy, hdate, hchange⟩ := Track.stopped_follow owner i.dependency _ i hended
    obtain rfl : stop = y.1 := Option.some.inj (hstop.symm.trans hdate)
    obtain ⟨⟨start, declared⟩, hmem, rfl⟩ := List.mem_map.mp hy
    exact ⟨declared, hmem, fun h => hchange ((map_version_eq_some resolve).mpr h)⟩
  · rw [hi'] at hstop
    cases hstop

/-- The interval that starts tells what the last commit of the instant declares, so the change that
ended the other one came before. -/
theorem taken_back (h : Chronological xs) {i j : Interval}
    (hi : i ∈ (follow owner resolve .empty xs).intervals owner)
    (hj : j ∈ (follow owner resolve .empty xs).intervals owner)
    (hsame : i.dependency = j.dependency) (htouch : i.stop = some j.start)
    (hversion : i.version = j.version) :
    ∃ (n m : Nat) (declared declared' : Table String), n < m ∧
      xs[n]? = some (j.start, declared) ∧ ¬Declares resolve declared i.dependency i.version ∧
      xs[m]? = some (j.start, declared') ∧ Declares resolve declared' i.dependency i.version := by
  obtain ⟨declared, hchange, hno⟩ := stopped_by owner resolve hi htouch
  have hcovers : j.Covers j.start := ⟨Int64.le_refl _, fun stop hstop =>
    (wellFormed_intervals owner resolve h).proper j hj stop hstop⟩
  obtain ⟨declared', ⟨m, start, hm, hle, hlast⟩, hdeclares⟩ :=
    (exists_covers_iff owner resolve h i.dependency i.version j.start).mp
      ⟨j, hj, hsame.symm, hversion.symm, hcovers⟩
  obtain ⟨n, hn⟩ := List.getElem?_of_mem hchange
  have hnm : n < m := by
    rcases Nat.lt_trichotomy n m with hlt | rfl | hgt
    · exact hlt
    · rw [hn] at hm
      cases hm
      exact absurd hdeclares hno
    · exact absurd (hlast n _ hgt hn) Int64.lt_irrefl
  have hstart : start = j.start := by
    obtain ⟨hltn, hn'⟩ := List.getElem?_eq_some_iff.mp hn
    obtain ⟨hltm, hm'⟩ := List.getElem?_eq_some_iff.mp hm
    have horder := List.pairwise_iff_getElem.mp h n m hltn hltm hnm
    rw [hn', hm'] at horder
    exact Int64.le_antisymm hle horder
  exact ⟨n, m, declared, declared', hnm, hn, hno, hstart ▸ hm, hdeclares⟩

theorem whole_of_undisturbed (h : Chronological xs) {d version : String} {a b : Instant}
    (hasof : ∃ declared, AsOf xs a declared ∧ Declares resolve declared d version)
    (hkept : ∀ x ∈ xs, a < x.1 → x.1 ≤ b → Declares resolve x.2 d version) :
    ∃ i ∈ (follow owner resolve .empty xs).intervals owner, i.dependency = d ∧
      i.version = version ∧ ∀ j ∈ (follow owner resolve .empty xs).intervals owner,
        j.dependency = d → ∀ t, a ≤ t → t ≤ b → (j.Covers t ↔ j = i) := by
  obtain ⟨i, hi, rfl, rfl, hcovers⟩ :=
    (exists_covers_iff owner resolve h d version a).mpr hasof
  have hbeyond : ∀ stop, i.stop = some stop → b < stop := by
    intro stop hstop
    obtain ⟨declared, hchange, hno⟩ := stopped_by owner resolve hi hstop
    refine Int64.not_le.mp fun hle => hno (hkept _ hchange (hcovers.2 stop hstop) hle)
  refine ⟨i, hi, rfl, rfl, fun j hj hd t hat htb => ?_⟩
  have hit : i.Covers t := by
    refine ⟨Int64.le_trans hcovers.1 hat, fun stop hstop => ?_⟩
    have hlt := hbeyond stop hstop
    rw [Int64.lt_iff_toInt_lt] at hlt ⊢
    rw [Int64.le_iff_toInt_le] at htb
    omega
  constructor
  · have hapart := apart_intervals owner resolve h i.dependency
    exact eq_of_covers hapart (List.mem_filter.mpr ⟨hi, by simp⟩)
      (List.mem_filter.mpr ⟨hj, by simp [hd]⟩) hit
  · rintro rfl
    exact hit

/-- A commit ends what is open with another version, and what starts later starts no earlier than
it. -/
theorem cut_by_change (h : Chronological xs) {x : Instant × Table String} (hx : x ∈ xs)
    {i : Interval} (hi : i ∈ (follow owner resolve .empty xs).intervals owner)
    (hno : ¬Declares resolve x.2 i.dependency i.version) (hlt : i.start < x.1) :
    ∃ stop, i.stop = some stop ∧ stop ≤ x.1 := by
  obtain ⟨before, after, rfl⟩ := List.append_of_mem hx
  rw [List.append_cons] at h hi
  obtain ⟨hbefore, -, hafter⟩ := List.pairwise_append.mp h
  have hlast : ∀ y ∈ before ++ [x], y.1 ≤ x.1 := by
    intro y hy
    rcases List.mem_append.mp hy with hy | hy
    · exact (List.pairwise_append.mp hbefore).2.2 y hy x (List.mem_singleton_self x)
    · rw [List.mem_singleton.mp hy]
      exact Int64.le_refl _
  have hgrows := grows_follow owner resolve hbefore hlast
    (fun y hy => hafter x List.mem_concat_self y hy) i.dependency
  rcases hgrows.started i (mem_intervals.mp hi) with hended | ⟨o, ho, hi'⟩ | hlate
  · rw [track_follow] at hended
    have hsaid : ∀ y ∈ saidOf resolve i.dependency (before ++ [x]), y.1 ≤ x.1 := by
      intro y hy
      obtain ⟨y', hy', rfl⟩ := List.mem_map.mp hy
      exact hlast y' hy'
    have hordered := Track.ordered_follow owner i.dependency
      (chronological_saidOf resolve hbefore i.dependency) hsaid
    obtain ⟨stop, hstop, -, hle⟩ := hordered.ended i hended
    exact ⟨stop, hstop, hle⟩
  · -- The interval that is open after the commit has the version that the commit declares.
    have hversion : (declaration resolve x.2 i.dependency).map Declaration.version =
        some o.version := by
      have hsaid : saidOf resolve i.dependency (before ++ [x]) =
          saidOf resolve i.dependency before ++ [(x.1, declaration resolve x.2 i.dependency)] := by
        rw [saidOf, List.map_append]
        rfl
      rw [track_follow, hsaid, Track.follow_concat] at ho
      exact (Track.version_step _).symm.trans (congrArg (Option.map OpenInterval.version) ho)
    have hsame : i.version = o.version := congrArg Interval.version hi'
    rw [← hsame] at hversion
    exact absurd ((map_version_eq_some resolve).mp hversion) hno
  · exact absurd hlt (Int64.not_lt.mpr hlate)

theorem maximal_intervals (h : Chronological xs) :
    Maximal resolve xs ((follow owner resolve .empty xs).intervals owner) where
  touch _ hi _ hj hsame htouch hversion := taken_back owner resolve h hi hj hsame htouch hversion
  whole _ _ _ _ hasof hkept := whole_of_undisturbed owner resolve h hasof hkept
  cut _ hx _ hi hno hlt := cut_by_change owner resolve h hx hi hno hlt

end Timeline

/-! ## Extractions -/

/-- The second commit changes a version, and the third one takes the change back at once. -/
def HistorySource.reverted : HistorySource (Option Manifest) := written [
  (⟨"a0", 100⟩, some (declaring [("c/d", "1.0.0")])),
  (⟨"a1", 200⟩, some (declaring [("c/d", "2.0.0")])),
  (⟨"a2", 200⟩, some (declaring [("c/d", "1.0.0")]))]

namespace Extractor
variable {σ : Type} {x : Extractor} {source : HistorySource σ} {s : σ}

/-- The intervals of an extraction are cut by the commits that do not declare their version, and by
nothing else. -/
theorem extract_maximal (owner : String) {history : History}
    (h : (x.extract owner source s).result = .ok history) :
    ∃ commits, (source.commits s).result = .ok commits ∧
      (x.maxCommits < commits.length ∧ history.intervals = [] ∨
      ∃ ms, (source.readings commits (source.commits s).state).result = .ok ms ∧
        Maximal x.resolver.resolve (moments commits ms) history.intervals) := by
  obtain ⟨commits, hcommits, hskipped | ⟨ms, hread, rfl⟩⟩ := readings_of_extract owner h
  · exact ⟨commits, hcommits, .inl hskipped⟩
  · exact ⟨commits, hcommits, .inr ⟨ms, hread, Timeline.maximal_intervals owner x.resolver.resolve
      (chronological_momentsSince _ commits ms)⟩⟩

/-- The history of `HistorySource.reverted`. -/
def cutInTwo : History where
  intervals := [⟨"a/b", "c/d", "1.0.0", "1.0.0", 100, some 200⟩,
    ⟨"a/b", "c/d", "1.0.0", "1.0.0", 200, none⟩]
  lifetime := ⟨some 100, some 200⟩
  commitCount := 3
  skipped := false

/-- The timeline is in order already. -/
theorem result_extract_reverted :
    (unpublished.extract "a/b" HistorySource.reverted none).result = .ok cutInTwo := by
  have hresult := @result_extract_of_readings _ unpublished "a/b" HistorySource.reverted none _ _
    rfl (by decide) rfl
  rw [hresult, historyOf, Timeline.intervals, List.mergeSort_of_pairwise (by decide +kernel)]
  decide +kernel

theorem extract_maximal_reverted :
    Maximal unpublished.resolver.resolve [(100, Table.ofList [("c/d", "1.0.0")]),
      (200, Table.ofList [("c/d", "2.0.0")]), (200, Table.ofList [("c/d", "1.0.0")])]
      cutInTwo.intervals := by
  obtain ⟨commits, hcommits, hskipped | ⟨ms, hread, hmaximal⟩⟩ :=
    extract_maximal "a/b" result_extract_reverted
  · cases hskipped.2
  · cases hcommits
    cases hread
    exact hmaximal

/-- A change that is taken back at once cuts the interval in two that touch and have one version. -/
theorem extract_taken_back : ∃ i j, (unpublished.extract "a/b" HistorySource.reverted none).result =
    .ok cutInTwo ∧ [i, j] <:+: cutInTwo.intervals.filter (·.dependency = "c/d") ∧
      i.stop = some j.start ∧ i.version = j.version :=
  ⟨_, _, result_extract_reverted, ⟨[], [], rfl⟩, rfl, rfl⟩

end Extractor
end UsageGraph
