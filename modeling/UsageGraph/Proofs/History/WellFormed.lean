import UsageGraph.Proofs.History.Extraction

/-! # Well-formed histories

* `WellFormed`: intervals by dependency and start, of which no two of one dependency overlap.
* `Track.Ordered.apart_intervals`: the intervals of an ordered track follow one another.
* `Timeline.wellFormed_intervals`: after declarations in the order of time the intervals of a
  timeline are well-formed.
* `Extractor.wellFormed_extract`: those of an extraction are.
-/

namespace UsageGraph
set_option autoImplicit false

/-- The first interval starts before the second one and ends no later than that one starts. -/
def Interval.Precedes (i j : Interval) : Prop :=
  i.start < j.start ∧ ∃ stop, i.stop = some stop ∧ stop ≤ j.start

structure WellFormed (is : List Interval) : Prop where
  sorted : is.Pairwise fun i j =>
    i.dependency < j.dependency ∨ i.dependency = j.dependency ∧ i.start ≤ j.start
  proper : ∀ i ∈ is, ∀ stop, i.stop = some stop → i.start < stop
  apart : ∀ d, (is.filter (·.dependency = d)).Pairwise Interval.Precedes
  open_last : ∀ i ∈ is, i.isOpen → (is.filter (·.dependency = i.dependency)).getLast? = some i

theorem wellFormed_nil : WellFormed [] where
  sorted := .nil
  proper _ h := nomatch h
  apart _ := .nil
  open_last _ h := nomatch h

/-- An interval without an end precedes none. -/
theorem getLast?_of_isOpen {is : List Interval} (h : is.Pairwise Interval.Precedes)
    {i : Interval} (hi : i ∈ is) (hopen : i.isOpen) : is.getLast? = some i := by
  obtain ⟨before, after, rfl⟩ := List.append_of_mem hi
  obtain ⟨-, hafter, -⟩ := List.pairwise_append.mp h
  cases after with
  | nil => exact List.getLast?_concat
  | cons j after =>
    obtain ⟨-, stop, hstop, -⟩ := List.rel_of_pairwise_cons hafter List.mem_cons_self
    rw [Interval.isOpen, hstop] at hopen
    cases hopen

/-! ## One track -/

namespace Track
variable {owner dependency : String} {now : Instant} {k : Track}

theorem Ordered.apart_intervals (h : k.Ordered now) :
    (k.intervals owner dependency).Pairwise Interval.Precedes := by
  have hprecedes : ∀ i ∈ k.ended, ∀ j : Interval,
      (∃ stop, i.stop = some stop ∧ stop ≤ j.start) → i.Precedes j := by
    rintro i hi j ⟨stop, hstop, hle⟩
    obtain ⟨stop', hstop', hlt, -⟩ := h.ended i hi
    obtain rfl : stop = stop' := Option.some.inj (hstop.symm.trans hstop')
    refine ⟨?_, stop, hstop, hle⟩
    rw [Int64.lt_iff_toInt_lt] at hlt ⊢
    rw [Int64.le_iff_toInt_le] at hle
    omega
  refine List.pairwise_append.mpr ⟨?_, ?_, fun i hi j hj => ?_⟩
  · exact h.apart.imp_of_mem fun hi _ hij => hprecedes _ hi _ hij
  · cases k.current <;> simp
  · obtain ⟨o, ho, rfl⟩ := Option.map_eq_some_iff.mp (Option.mem_toList.mp hj)
    exact hprecedes i hi _ (h.last i hi o ho)

theorem Ordered.proper_intervals (h : k.Ordered now) {i : Interval}
    (hi : i ∈ k.intervals owner dependency) {stop : Instant} (hstop : i.stop = some stop) :
    i.start < stop := by
  rcases List.mem_append.mp hi with hi | hi
  · obtain ⟨stop', hstop', hlt, -⟩ := h.ended i hi
    obtain rfl : stop = stop' := Option.some.inj (hstop.symm.trans hstop')
    exact hlt
  · obtain ⟨o, -, rfl⟩ := Option.map_eq_some_iff.mp (Option.mem_toList.mp hi)
    cases hstop

end Track

/-! ## A whole timeline -/

namespace Timeline
variable (owner : String) (resolve : String → String → String)

theorem ordered_track_follow {xs : List (Instant × Table String)} (h : Chronological xs)
    (d : String) : ((follow owner resolve .empty xs).track d).Ordered Int64.maxValue := by
  rw [track_follow]
  refine Track.ordered_follow owner d (chronological_saidOf resolve h d) fun x _ => ?_
  exact Int64.le_iff_toInt_le.mpr x.1.toInt_le

/-- The intervals of one dependency, in their order, come from its declarations alone. -/
theorem filter_intervals_follow {xs : List (Instant × Table String)} (h : Chronological xs)
    (d : String) : ((follow owner resolve .empty xs).intervals owner).filter (·.dependency = d) =
      (Track.follow owner d (saidOf resolve d xs)).intervals owner d := by
  have htrack : (((follow owner resolve .empty xs).track d).intervals owner d).Pairwise
      Interval.Precedes := (ordered_track_follow owner resolve h d).apart_intervals
  rw [filter_intervals (htrack.imp fun hij => Int64.le_of_lt hij.1), track_follow]

theorem apart_intervals {xs : List (Instant × Table String)} (h : Chronological xs) (d : String) :
    (((follow owner resolve .empty xs).intervals owner).filter (·.dependency = d)).Pairwise
      Interval.Precedes := by
  rw [filter_intervals_follow owner resolve h, ← track_follow]
  exact (ordered_track_follow owner resolve h d).apart_intervals

theorem wellFormed_intervals {xs : List (Instant × Table String)} (h : Chronological xs) :
    WellFormed ((follow owner resolve .empty xs).intervals owner) := by
  constructor
  case sorted => exact (intervals_pairwise _).imp before_iff.mp
  case proper =>
    intro i hi stop hstop
    exact (ordered_track_follow owner resolve h _).proper_intervals (mem_intervals.mp hi) hstop
  case apart => exact apart_intervals owner resolve h
  case open_last =>
    intro i hi hopen
    have hmem : i ∈ ((follow owner resolve .empty xs).intervals owner).filter
        (·.dependency = i.dependency) := List.mem_filter.mpr ⟨hi, by simp⟩
    exact getLast?_of_isOpen (apart_intervals owner resolve h i.dependency) hmem hopen

end Timeline

/-! ## Extractions -/

namespace Extractor
variable {σ : Type} {x : Extractor} {source : HistorySource σ} {s : σ}

/-- Whatever the commits and their dates are, an extraction gives well-formed intervals. -/
theorem wellFormed_extract {owner : String} {history : History}
    (h : (x.extract owner source s).result = .ok history) : WellFormed history.intervals := by
  rcases extract_eq_ok owner h with hskipped | ⟨commits, ms, rfl⟩
  · rw [hskipped]
    exact wellFormed_nil
  · exact Timeline.wellFormed_intervals owner x.resolver.resolve
      (chronological_momentsSince _ commits ms)

theorem wellFormed_extract_backwards :
    WellFormed [⟨"a/b", "c/d", "2.0.0", "2.0.0", 100, some 200⟩] :=
  @wellFormed_extract _ unpublished HistorySource.backwards none "a/b"
    ⟨_, ⟨some 100, some 200⟩, 3, false⟩ (by decide +kernel)

end Extractor
end UsageGraph
