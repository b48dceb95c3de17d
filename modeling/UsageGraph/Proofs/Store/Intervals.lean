import Mathlib.Data.List.Pairwise
import UsageGraph.Proofs.History.AsOf
import UsageGraph.Proofs.History.WellFormed
import UsageGraph.Proofs.Store.Replacement

/-! # Extracted intervals in the store

The store has no key for intervals and an order of its own. What an extraction gives comes back
unchanged all the same, because its order is that one and no two of its intervals tie in it.

* `WellFormed.eq_of_key`: well-formed intervals are told apart by dependency and start.
* `WellFormed.eq_of_perm`: there is one way to put them in order.
* `Extractor.stored_extract`: the intervals of an extraction, stored and read again.
-/

namespace UsageGraph
set_option autoImplicit false

namespace Store

theorem compareIntervals_eq : compareIntervals =
    compareLex (compareOn Interval.dependency) (compareOn fun i => i.start.toInt) := by
  funext i j
  simp [compareIntervals, lexicographic, compareLex, compareOn]

instance : Std.TransCmp compareIntervals := compareIntervals_eq ▸ inferInstance

theorem key_eq_of_compareIntervals {i j : Interval} (h : compareIntervals i j = .eq) :
    i.dependency = j.dependency ∧ i.start = j.start := by
  simp [compareIntervals, lexicographic, Ordering.then_eq_eq, Int64.toInt_inj] at h
  exact h

end Store

namespace WellFormed
variable {is : List Interval} (h : WellFormed is)
include h

theorem eq_of_key {i j : Interval} (hi : i ∈ is) (hj : j ∈ is)
    (hdependency : i.dependency = j.dependency) (hstart : i.start = j.start) : i = j := by
  have hsymm : Std.Symm fun i j : Interval => i.start ≠ j.start := ⟨fun _ _ => Ne.symm⟩
  have hapart : (is.filter (·.dependency = j.dependency)).Pairwise fun i j => i.start ≠ j.start :=
    (h.apart j.dependency).imp fun hij => Int64.ne_of_lt hij.1
  by_contra hne
  refine hapart.forall ?_ ?_ hne hstart
  · exact List.mem_filter.mpr ⟨hi, decide_eq_true hdependency⟩
  · exact List.mem_filter.mpr ⟨hj, decide_eq_true rfl⟩

theorem eq_of_perm {rows : List Interval} (hperm : rows.Perm is)
    (hrows : rows.Pairwise fun i j => (Store.compareIntervals i j).isLE) : rows = is := by
  refine hperm.eq_of_pairwise (fun i j hi hj hij hji => ?_) hrows
    (h.sorted.imp Store.isLE_compareIntervals)
  obtain ⟨hdependency, hstart⟩ :=
    Store.key_eq_of_compareIntervals (Std.OrientedCmp.isLE_antisymm hij hji)
  exact h.eq_of_key (hperm.mem_iff.mp hi) hj hdependency hstart

end WellFormed

namespace Extractor
variable {σ : Type} {x : Extractor} {source : HistorySource σ} {s : σ}

/-- The last part is about any store that gives its rows by dependency and start, however it breaks
ties. -/
theorem stored_extract {owner : String} {history : History}
    (h : (x.extract owner source s).result = .ok history) (t : Store) :
    (t.replaceIntervals owner history.intervals).1 = history.intervals.length ∧
    (t.replaceIntervals owner history.intervals).2.intervalsOf owner = history.intervals ∧
    ∀ rows : List Interval,
      rows.Perm ((t.replaceIntervals owner history.intervals).2.intervals.filter fun i =>
        i.owner = owner) →
      rows.Pairwise (fun i j => (Store.compareIntervals i j).isLE) → rows = history.intervals := by
  have hwell := wellFormed_extract h
  have hstored := Store.intervalsOf_replaceIntervals t (owner_of_extract h) hwell.sorted
  refine ⟨rfl, hstored, fun rows hperm hrows => hwell.eq_of_perm ?_ hrows⟩
  have hsort : ((t.replaceIntervals owner history.intervals).2.intervalsOf owner).Perm _ :=
    List.mergeSort_perm _ _
  rw [hstored] at hsort
  exact hperm.trans hsort.symm

/-- What an earlier import stored. -/
def replaced : Store :=
  (Store.empty.replaceIntervals "a/b" [⟨"a/b", "x/y", "1.0.0", "1.0.0", 5, none⟩]).2

theorem stored_extract_backwards :
    replaced.intervals = [⟨"a/b", "x/y", "1.0.0", "1.0.0", 5, none⟩] ∧
      (replaced.replaceIntervals "a/b"
        [⟨"a/b", "c/d", "2.0.0", "2.0.0", 100, some 200⟩]).2.intervalsOf "a/b" =
          [⟨"a/b", "c/d", "2.0.0", "2.0.0", 100, some 200⟩] := by
  have hextract : (unpublished.extract "a/b" HistorySource.backwards none).result =
      .ok ⟨[⟨"a/b", "c/d", "2.0.0", "2.0.0", 100, some 200⟩], ⟨some 100, some 200⟩, 3, false⟩ := by
    decide +kernel
  obtain ⟨-, hstored, -⟩ := stored_extract hextract replaced
  exact ⟨rfl, hstored⟩

end Extractor
end UsageGraph
