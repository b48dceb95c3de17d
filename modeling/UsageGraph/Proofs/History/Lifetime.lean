import UsageGraph.Proofs.History.Maximality

/-! # Intervals and the lifetime of their repository

The lifetime of a repository is told by its first and its last commit as they are dated, but
intervals count a commit as made no earlier than those before it. So no interval starts before the
lifetime, but one may start or end after it, with a commit that is dated later than the last one.

* `dated_by_commit`: every moment is the timestamp of a commit, and none is before the first one.
* `Extractor.extract_within_lifetime`: where the intervals of an extraction start and end.
* `Extractor.extract_beyond_lifetime`: an interval that starts after the last commit.
-/

namespace UsageGraph
set_option autoImplicit false

/-- The interval starts or ends at the instant. -/
def Interval.Bound (i : Interval) (t : Instant) : Prop := i.start = t ∨ i.stop = some t

/-! ## The dates of the commits -/

theorem later_minValue (t : Instant) : Extractor.later t Int64.minValue = t :=
  if_neg (Int64.not_lt.mpr (Int64.le_iff_toInt_le.mpr t.minValue_le_toInt))

theorem later_cases (a b : Instant) : Extractor.later a b = a ∨ Extractor.later a b = b := by
  unfold Extractor.later
  split
  · exact .inr rfl
  · exact .inl rfl

theorem date_of_mem_momentsSince {t : Instant} {cs : List Commit} {ms : List (Option Manifest)}
    {x : Instant × Table String} (h : x ∈ momentsSince t cs ms) :
    x.1 = t ∨ ∃ c ∈ cs, c.timestamp = x.1 := by
  induction cs generalizing t ms with
  | nil => cases h
  | cons c cs ih =>
    cases ms with
    | nil => simp [momentsSince] at h
    | cons m ms =>
      have hlater : ∀ y, y = Extractor.later c.timestamp t →
          y = t ∨ ∃ c' ∈ c :: cs, c'.timestamp = y := by
        rintro y rfl
        rcases later_cases c.timestamp t with he | he
        · exact .inr ⟨c, List.mem_cons_self, he.symm⟩
        · exact .inl he
      rw [momentsSince_cons] at h
      rcases List.mem_cons.mp h with rfl | h
      · exact hlater _ rfl
      · rcases ih h with hx | ⟨c', hc', hx⟩
        · exact hlater _ hx
        · exact .inr ⟨c', List.mem_cons_of_mem _ hc', hx⟩

/-- Nothing is dated before the first commit, however early later ones are dated. -/
theorem dated_by_commit {c : Commit} {cs : List Commit} {ms : List (Option Manifest)}
    {x : Instant × Table String} (h : x ∈ moments (c :: cs) ms) :
    c.timestamp ≤ x.1 ∧ ∃ c' ∈ c :: cs, c'.timestamp = x.1 := by
  cases ms with
  | nil => simp [moments, momentsSince] at h
  | cons m ms =>
    rw [moments, momentsSince_cons, later_minValue] at h
    rcases List.mem_cons.mp h with rfl | h
    · exact ⟨Int64.le_refl _, c, List.mem_cons_self, rfl⟩
    · refine ⟨le_of_mem_momentsSince h, ?_⟩
      rcases date_of_mem_momentsSince h with hx | ⟨c', hc', hx⟩
      · exact ⟨c, List.mem_cons_self, hx.symm⟩
      · exact ⟨c', List.mem_cons_of_mem _ hc', hx⟩

namespace Timeline
variable (owner : String) (resolve : String → String → String)
  {xs : List (Instant × Table String)}

/-- An interval starts and ends with a commit. -/
theorem moment_of_bound {i : Interval} (hi : i ∈ (follow owner resolve .empty xs).intervals owner)
    {t : Instant} (ht : i.Bound t) : ∃ declared, (t, declared) ∈ xs := by
  rcases ht with rfl | hstop
  · obtain ⟨-, declared, hmem, -⟩ := declared_at_start owner resolve hi
    exact ⟨declared, hmem⟩
  · obtain ⟨declared, hmem, -⟩ := stopped_by owner resolve hi hstop
    exact ⟨declared, hmem⟩

end Timeline

/-! ## Extractions -/

/-- The last commit is dated before the first one. -/
def HistorySource.behind : HistorySource (Option Manifest) := written [
  (⟨"a0", 100⟩, some (declaring [("c/d", "1.0.0")])),
  (⟨"a1", 50⟩, some (declaring [("c/d", "1.0.0"), ("e/f", "2.0.0")]))]

namespace Extractor
variable {σ : Type} {x : Extractor} {source : HistorySource σ} {s : σ}

/-- No interval starts before the first commit, and if no commit is dated later than the last one,
none starts or ends later than that one either. -/
theorem extract_within_lifetime (owner : String) {history : History}
    (h : (x.extract owner source s).result = .ok history) (hsome : history.intervals ≠ []) :
    ∃ commits first last, (source.commits s).result = .ok commits ∧
      commits.head? = some first ∧ commits.getLast? = some last ∧
      history.lifetime = ⟨some first.timestamp, some last.timestamp⟩ ∧
      (∀ i ∈ history.intervals, first.timestamp ≤ i.start ∧ ∀ t, i.Bound t →
        t ≤ last.timestamp ∨ ∃ c ∈ commits, c.timestamp = t ∧ last.timestamp < t) ∧
      ((∀ c ∈ commits, c.timestamp ≤ last.timestamp) →
        ∀ i ∈ history.intervals, ∀ t, i.Bound t → t ≤ last.timestamp) := by
  obtain ⟨commits, hcommits, ⟨-, hskipped⟩ | ⟨ms, -, rfl⟩⟩ := readings_of_extract owner h
  · exact absurd hskipped hsome
  · cases commits with
    | nil =>
      obtain ⟨i, hi⟩ := List.exists_mem_of_ne_nil _ hsome
      obtain ⟨declared, hmem⟩ :=
        Timeline.moment_of_bound owner x.resolver.resolve hi (.inl rfl)
      cases hmem
    | cons first rest =>
      have hlast := List.getLast?_eq_some_getLast (List.cons_ne_nil first rest)
      have hdated : ∀ i ∈ (x.historyOf owner (first :: rest) ms).intervals, ∀ t, i.Bound t →
          first.timestamp ≤ t ∧ ∃ c ∈ first :: rest, c.timestamp = t := by
        intro i hi t ht
        obtain ⟨declared, hmem⟩ := Timeline.moment_of_bound owner x.resolver.resolve hi ht
        exact dated_by_commit hmem
      refine ⟨first :: rest, first, _, hcommits, rfl, hlast, ?_, fun i hi => ⟨?_, fun t ht => ?_⟩,
        fun hlatest i hi t ht => ?_⟩
      · rw [historyOf, lifetime, hlast]
        rfl
      · exact (hdated i hi i.start (.inl rfl)).1
      · obtain ⟨-, c, hc, hct⟩ := hdated i hi t ht
        rcases Int64.le_or_lt t ((first :: rest).getLast _).timestamp with hle | hlt
        · exact .inl hle
        · exact .inr ⟨c, hc, hct, hlt⟩
      · obtain ⟨-, c, hc, rfl⟩ := hdated i hi t ht
        exact hlatest c hc

theorem extract_within_lifetime_backwards :
    ∃ history, (unpublished.extract "a/b" HistorySource.backwards none).result = .ok history ∧
      history.lifetime = ⟨some 100, some 200⟩ ∧
      ∀ i ∈ history.intervals, 100 ≤ i.start ∧ ∀ t, i.Bound t → t ≤ 200 := by
  have hextract : (unpublished.extract "a/b" HistorySource.backwards none).result =
      .ok ⟨[⟨"a/b", "c/d", "2.0.0", "2.0.0", 100, some 200⟩], ⟨some 100, some 200⟩, 3, false⟩ := by
    decide +kernel
  obtain ⟨commits, first, last, hcommits, hfirst, hlast, hlifetime, hstart, hlatest⟩ :=
    extract_within_lifetime "a/b" hextract (by simp)
  cases hcommits
  cases hfirst
  cases hlast
  exact ⟨_, hextract, hlifetime, fun i hi => ⟨(hstart i hi).1, hlatest (by decide) i hi⟩⟩

/-- The repository is said to end before what it depends on begins. -/
theorem extract_beyond_lifetime : ∃ history,
    (unpublished.extract "a/b" HistorySource.behind none).result = .ok history ∧
      history.intervals = [⟨"a/b", "c/d", "1.0.0", "1.0.0", 100, none⟩,
        ⟨"a/b", "e/f", "2.0.0", "2.0.0", 100, none⟩] ∧
      history.lifetime = ⟨some 100, some 50⟩ := by
  have hresult := @result_extract_of_readings _ unpublished "a/b" HistorySource.behind none _ _
    rfl (by decide) rfl
  refine ⟨_, hresult, ?_, rfl⟩
  rw [historyOf, Timeline.intervals, List.mergeSort_of_pairwise (by decide +kernel)]
  decide +kernel

end Extractor
end UsageGraph
