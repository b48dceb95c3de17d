import UsageGraph.Crawl.Queue

/-! # Files in the compile queue

* `CompileQueue.Consistent`: every file waits once, and none of them is resolved.
* `CompileQueue.consistent_ofFiles`, `CompileQueue.Consistent.resolve`: a queue is consistent from
  the start and stays so.
* `CompileQueue.pending_resolve`: what waits after some files are resolved.
* `CompileQueue.Before`: the order of turns, which a queue keeps while it lasts.
-/

namespace UsageGraph
set_option autoImplicit false

theorem mem_firstOccurrences {x : String} {xs : List String} :
    x ∈ firstOccurrences xs ↔ x ∈ xs := by
  induction xs with
  | nil => rfl
  | cons y xs ih =>
    rw [firstOccurrences, List.mem_cons, List.mem_cons, List.mem_filter, ih, decide_eq_true_eq]
    by_cases h : x = y
    · simp [h]
    · simp [h]

theorem nodup_firstOccurrences (xs : List String) : (firstOccurrences xs).Nodup := by
  induction xs with
  | nil => exact List.nodup_nil
  | cons x xs ih =>
    rw [firstOccurrences, List.nodup_cons]
    exact ⟨by simp, ih.filter _⟩

namespace CompileQueue

theorem mem_ofFiles {file : String} {files : List String} :
    file ∈ (ofFiles files).pending ↔ file ∈ files := by
  rw [ofFiles, mem_firstOccurrences, List.mem_append, List.mem_filter, List.mem_filter]
  cases isEntryFile file <;> simp

structure Consistent (q : CompileQueue) : Prop where
  nodup : q.pending.Nodup
  unresolved : ∀ file ∈ q.pending, file ∉ q.resolved

theorem consistent_ofFiles (files : List String) : (ofFiles files).Consistent where
  nodup := nodup_firstOccurrences _
  unresolved _ _ h := nomatch h

variable {q rest : CompileQueue} {file : String}

theorem pop?_eq_none : q.pop? = none ↔ q.pending = [] := by
  unfold pop?
  split <;> simp [*]

theorem pop?_eq_some (h : q.pop? = some (file, rest)) :
    q.pending = file :: rest.pending ∧ rest.resolved = q.resolved := by
  unfold pop? at h
  split at h
  · cases h
  · next hq =>
    cases h
    exact ⟨hq, rfl⟩

theorem Consistent.pop (h : q.Consistent) (hpop : q.pop? = some (file, rest)) :
    rest.Consistent ∧ file ∉ rest.pending := by
  obtain ⟨hpending, hresolved⟩ := pop?_eq_some hpop
  have hnodup := h.nodup
  rw [hpending, List.nodup_cons] at hnodup
  refine ⟨⟨hnodup.2, fun f hf => ?_⟩, hnodup.1⟩
  rw [hresolved]
  exact h.unresolved f (by rw [hpending]; exact List.mem_cons_of_mem file hf)

theorem Consistent.resolve (h : q.Consistent) (files : List String) :
    (q.resolve files).Consistent where
  nodup := h.nodup.filter _
  unresolved _ hf := of_decide_eq_true (List.mem_filter.mp hf).2

/-- Only newly resolved files leave the queue. -/
theorem pending_resolve (h : q.Consistent) (files : List String) :
    (q.resolve files).pending = q.pending.filter (· ∉ files) := by
  refine List.filter_congr fun f hf => ?_
  simp [h.unresolved f hf]

/-! ## Turns -/

/-- Both files wait, and the first one has its turn before the second one. -/
def Before (q : CompileQueue) (g file : String) : Prop := [g, file].Sublist q.pending

variable {g : String}

theorem not_before_next (h : q.Consistent) (hpop : q.pop? = some (file, rest)) :
    ¬q.Before g file := by
  have hnext := (h.pop hpop).2
  rw [Before, (pop?_eq_some hpop).1]
  intro hsub
  cases hsub with
  | cons _ hsub => exact hnext (hsub.subset (by simp))
  | cons_cons _ hsub => exact hnext (hsub.subset (by simp))

theorem before_of_next {next : String} (hpop : q.pop? = some (next, rest))
    (h : file ∈ rest.pending) : q.Before next file := by
  rw [Before, (pop?_eq_some hpop).1]
  exact (List.singleton_sublist.mpr h).cons_cons next

theorem before_iff_of_ne {next : String} (hpop : q.pop? = some (next, rest)) (h : g ≠ next) :
    q.Before g file ↔ rest.Before g file := by
  rw [Before, (pop?_eq_some hpop).1]
  constructor
  · intro hsub
    cases hsub with
    | cons _ hsub => exact hsub
    | cons_cons _ _ => exact absurd rfl h
  · exact fun hsub => hsub.cons next

/-- Files that stay keep their turns. -/
theorem before_resolve (h : q.Consistent) {files : List String}
    (hg : g ∈ (q.resolve files).pending) (hfile : file ∈ (q.resolve files).pending) :
    (q.resolve files).Before g file ↔ q.Before g file := by
  rw [pending_resolve h, List.mem_filter] at hg hfile
  rw [Before, pending_resolve h]
  constructor
  · exact fun hsub => hsub.trans List.filter_sublist
  · intro hsub
    have hkept := hsub.filter (· ∉ files)
    rwa [List.filter_eq_self.mpr (by simp_all)] at hkept

end CompileQueue
end UsageGraph
