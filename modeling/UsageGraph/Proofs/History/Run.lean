import UsageGraph.Proofs.History.Track
import Mathlib.Data.List.Induction

/-! # A track over a run of commits

A run is a list of dated values, the oldest first. What a track holds after a run is found by
induction from its end: the last step is `Track.step`.

* `Track.follow`: the track after a run.
* `AsOf`: what a run holds at an instant, which is the last value that is dated no later.
* `Track.Ordered`: no interval of a track overlaps another, and none reaches beyond the present.
* `Track.ordered_follow`, `Track.covers_follow`, `Track.from_follow`: after every run in the order
  of time a track is ordered, covers an instant with the version of that instant, and has every
  interval from a declaration of the run.
-/

namespace UsageGraph
set_option autoImplicit false

/-! ## Dated values -/

section
variable {α β : Type}

def Chronological (xs : List (Instant × α)) : Prop := xs.Pairwise fun x y => x.1 ≤ y.1

/-- The last value that is dated no later than an instant. -/
def AsOf (xs : List (Instant × α)) (t : Instant) (a : α) : Prop :=
  ∃ n start, xs[n]? = some (start, a) ∧ start ≤ t ∧
    ∀ (m : Nat) (x : Instant × α), n < m → xs[m]? = some x → t < x.1

theorem not_asOf_nil (t : Instant) (a : α) : ¬AsOf [] t a := by
  rintro ⟨n, start, hn, -⟩
  cases hn

theorem asOf_concat_of_le {xs : List (Instant × α)} {start t : Instant} (h : start ≤ t) (a b : α) :
    AsOf (xs ++ [(start, b)]) t a ↔ a = b := by
  constructor
  · rintro ⟨n, start', hn, -, hlast⟩
    have hlt : n < (xs ++ [(start, b)]).length := (List.getElem?_eq_some_iff.mp hn).1
    rw [List.length_append, List.length_singleton] at hlt
    rcases Nat.lt_or_ge n xs.length with hn' | hn'
    · have hbad : t < start := hlast xs.length (start, b) hn' List.getElem?_concat_length
      rw [Int64.lt_iff_toInt_lt] at hbad
      rw [Int64.le_iff_toInt_le] at h
      omega
    · have he : n = xs.length := by omega
      rw [he, List.getElem?_concat_length] at hn
      cases hn
      rfl
  · rintro rfl
    refine ⟨xs.length, start, List.getElem?_concat_length, h, fun m x hm hx => ?_⟩
    have hlt : m < (xs ++ [(start, a)]).length := (List.getElem?_eq_some_iff.mp hx).1
    rw [List.length_append, List.length_singleton] at hlt
    omega

theorem asOf_concat_of_lt {xs : List (Instant × α)} {start t : Instant} (h : t < start) (a b : α) :
    AsOf (xs ++ [(start, b)]) t a ↔ AsOf xs t a := by
  constructor
  · rintro ⟨n, start', hn, hle, hlast⟩
    have hlt : n < (xs ++ [(start, b)]).length := (List.getElem?_eq_some_iff.mp hn).1
    rw [List.length_append, List.length_singleton] at hlt
    have hne : n ≠ xs.length := by
      rintro rfl
      rw [List.getElem?_concat_length] at hn
      cases hn
      rw [Int64.lt_iff_toInt_lt] at h
      rw [Int64.le_iff_toInt_le] at hle
      omega
    rw [List.getElem?_append_left (by omega)] at hn
    refine ⟨n, start', hn, hle, fun m x hm hx => hlast m x hm ?_⟩
    rw [List.getElem?_append_left (List.getElem?_eq_some_iff.mp hx).1, hx]
  · rintro ⟨n, start', hn, hle, hlast⟩
    have hlt : n < xs.length := (List.getElem?_eq_some_iff.mp hn).1
    refine ⟨n, start', by rw [List.getElem?_append_left hlt, hn], hle, fun m x hm hx => ?_⟩
    rcases Nat.lt_or_ge m xs.length with hm' | hm'
    · rw [List.getElem?_append_left hm'] at hx
      exact hlast m x hm hx
    · rw [List.getElem?_append_right hm'] at hx
      have hx' := List.mem_of_getElem? hx
      rw [List.mem_singleton] at hx'
      rw [hx']
      exact h

theorem asOf_map (f : α → β) {xs : List (Instant × α)} {t : Instant} {b : β} :
    AsOf (xs.map fun x => (x.1, f x.2)) t b ↔ ∃ a, AsOf xs t a ∧ f a = b := by
  simp only [AsOf, List.getElem?_map, Option.map_eq_some_iff]
  constructor
  · rintro ⟨n, start, ⟨⟨start', a⟩, hn, he⟩, hle, hlast⟩
    cases he
    exact ⟨a, ⟨n, start', hn, hle, fun m x hm hx => hlast m _ hm ⟨x, hx, rfl⟩⟩, rfl⟩
  · rintro ⟨a, ⟨n, start, hn, hle, hlast⟩, rfl⟩
    refine ⟨n, start, ⟨(start, a), hn, rfl⟩, hle, ?_⟩
    rintro m _ hm ⟨x, hx, rfl⟩
    exact hlast m x hm hx

end

/-! ## Intervals and instants -/

/-- From the start on and before the end, if there is one. -/
def Interval.Covers (i : Interval) (t : Instant) : Prop :=
  i.start ≤ t ∧ ∀ stop, i.stop = some stop → t < stop

namespace Track
variable {owner dependency : String} {at_ now : Instant} {k : Track}

structure Ordered (k : Track) (now : Instant) : Prop where
  ended : ∀ i ∈ k.ended, ∃ stop, i.stop = some stop ∧ i.start < stop ∧ stop ≤ now
  apart : k.ended.Pairwise fun i j => ∃ stop, i.stop = some stop ∧ stop ≤ j.start
  current : ∀ o, k.current = some o → o.start ≤ now
  last : ∀ i ∈ k.ended, ∀ o, k.current = some o → ∃ stop, i.stop = some stop ∧ stop ≤ o.start

theorem ordered_empty (now : Instant) : empty.Ordered now where
  ended _ h := nomatch h
  apart := .nil
  current _ h := nomatch h
  last _ h := nomatch h

theorem Ordered.mono {now' : Instant} (h : k.Ordered now) (hle : now ≤ now') : k.Ordered now' where
  ended i hi := by
    obtain ⟨stop, hstop, hlt, hnow⟩ := h.ended i hi
    exact ⟨stop, hstop, hlt, Int64.le_trans hnow hle⟩
  apart := h.apart
  current o ho := Int64.le_trans (h.current o ho) hle
  last := h.last

theorem ordered_begun {es : List Interval} (x : Option Declaration)
    (hended : ∀ i ∈ es, ∃ stop, i.stop = some stop ∧ i.start < stop ∧ stop ≤ at_)
    (hapart : es.Pairwise fun i j => ∃ stop, i.stop = some stop ∧ stop ≤ j.start) :
    (Track.mk es (begun at_ x)).Ordered at_ where
  ended := hended
  apart := hapart
  current o ho := by
    rw [(begun_eq_some.mp ho).2]
    exact Int64.le_refl at_
  last i hi o ho := by
    obtain ⟨stop, hstop, -, hle⟩ := hended i hi
    exact ⟨stop, hstop, (begun_eq_some.mp ho).2 ▸ hle⟩

theorem ordered_step (h : k.Ordered at_) (x : Option Declaration) :
    (k.step owner dependency at_ x).Ordered at_ := by
  cases hc : k.current with
  | none =>
    rw [step_of_none hc]
    exact ordered_begun x h.ended h.apart
  | some o =>
    by_cases hv : x.map Declaration.version = some o.version
    · rwa [step_of_same hc hv]
    · rw [step_of_changed hc hv]
      refine ordered_begun x (fun i hi => ?_) (List.pairwise_append.mpr ⟨h.apart, ?_, ?_⟩)
      · rcases List.mem_append.mp hi with hi | hi
        · exact h.ended i hi
        · obtain ⟨hlt, rfl⟩ := mem_finished.mp hi
          exact ⟨at_, rfl, hlt, Int64.le_refl at_⟩
      · unfold finished
        split <;> simp
      · intro i hi j hj
        obtain ⟨-, rfl⟩ := mem_finished.mp hj
        exact h.last i hi o hc

/-! ## Versions in effect -/

/-- A version is in effect at an instant. -/
def Covers (k : Track) (version : String) (t : Instant) : Prop :=
  (∃ i ∈ k.ended, i.version = version ∧ i.Covers t) ∨
    ∃ o, k.current = some o ∧ o.version = version ∧ o.start ≤ t

theorem covers_iff {version : String} {t : Instant} : k.Covers version t ↔
    ∃ i ∈ k.intervals owner dependency, i.version = version ∧ i.Covers t := by
  simp only [Covers, intervals, List.mem_append, Option.mem_toList, Option.map_eq_some_iff,
    or_and_right, exists_or]
  refine or_congr_right ⟨?_, ?_⟩
  · rintro ⟨o, ho, hv, hle⟩
    refine ⟨_, ⟨o, ho, rfl⟩, hv, hle, ?_⟩
    rintro stop ⟨⟩
  · rintro ⟨_, ⟨o, ho, rfl⟩, hv, hle, -⟩
    exact ⟨o, ho, hv, hle⟩

theorem version_step (x : Option Declaration) :
    (k.step owner dependency at_ x).current.map OpenInterval.version =
      x.map Declaration.version := by
  have hbegun : (begun at_ x).map OpenInterval.version = x.map Declaration.version := by
    cases x <;> rfl
  cases hc : k.current with
  | none => rw [step_of_none hc, hbegun]
  | some o =>
    by_cases hv : x.map Declaration.version = some o.version
    · rw [step_of_same hc hv, hc, hv, Option.map_some]
    · rw [step_of_changed hc hv, hbegun]

/-- What has ended covers nothing of the present, and what lasts covers all of it. -/
theorem covers_of_le (h : k.Ordered now) {t : Instant} (hle : now ≤ t) (version : String) :
    k.Covers version t ↔ k.current.map OpenInterval.version = some version := by
  rw [Option.map_eq_some_iff]
  constructor
  · rintro (⟨i, hi, -, -, hstop⟩ | ⟨o, ho, hv, -⟩)
    · obtain ⟨stop, hi', -, hnow⟩ := h.ended i hi
      have hlt := hstop stop hi'
      rw [Int64.lt_iff_toInt_lt] at hlt
      rw [Int64.le_iff_toInt_le] at hnow hle
      omega
    · exact ⟨o, ho, hv⟩
  · rintro ⟨o, ho, hv⟩
    exact .inr ⟨o, ho, hv, Int64.le_trans (h.current o ho) hle⟩

/-- A step leaves the past as it is. -/
theorem covers_step_of_lt {t : Instant} (hlt : t < at_) (x : Option Declaration)
    (version : String) :
    (k.step owner dependency at_ x).Covers version t ↔ k.Covers version t := by
  have hbegun : ∀ o, begun at_ x = some o → ¬o.start ≤ t := by
    intro o ho hle
    rw [(begun_eq_some.mp ho).2, Int64.le_iff_toInt_le] at hle
    rw [Int64.lt_iff_toInt_lt] at hlt
    omega
  cases hc : k.current with
  | none =>
    rw [step_of_none hc]
    refine or_congr_right ⟨?_, ?_⟩
    · rintro ⟨o, ho, -, hle⟩
      exact absurd hle (hbegun o ho)
    · rintro ⟨o, ho, -⟩
      rw [hc] at ho
      cases ho
  | some o =>
    by_cases hv : x.map Declaration.version = some o.version
    · rw [step_of_same hc hv]
    · rw [step_of_changed hc hv]
      constructor
      · rintro (⟨i, hi, hi', hcov⟩ | ⟨o', ho', -, hle⟩)
        · rcases List.mem_append.mp hi with hi | hi
          · exact .inl ⟨i, hi, hi', hcov⟩
          · obtain ⟨-, rfl⟩ := mem_finished.mp hi
            exact .inr ⟨o, hc, hi', hcov.1⟩
        · exact absurd hle (hbegun o' ho')
      · rintro (⟨i, hi, hi', hcov⟩ | ⟨o', ho', hv', hle⟩)
        · exact .inl ⟨i, List.mem_append_left _ hi, hi', hcov⟩
        · rw [hc] at ho'
          cases ho'
          have hstart : o.start < at_ := by
            rw [Int64.le_iff_toInt_le] at hle
            rw [Int64.lt_iff_toInt_lt] at hlt ⊢
            omega
          refine .inl ⟨_, List.mem_append_right _ (mem_finished.mpr ⟨hstart, rfl⟩), hv', hle, ?_⟩
          rintro stop ⟨⟩
          exact hlt

/-! ## Where intervals come from -/

/-- Every interval starts with the declaration that it carries. -/
def From (owner dependency : String) (k : Track) (xs : List (Instant × Option Declaration)) :
    Prop :=
  ∀ i ∈ k.intervals owner dependency,
    i.owner = owner ∧ (i.start, some ⟨i.range, i.version⟩) ∈ xs

theorem from_mono {xs ys : List (Instant × Option Declaration)}
    (h : From owner dependency k xs) (hsub : xs ⊆ ys) : From owner dependency k ys :=
  fun i hi => ⟨(h i hi).1, hsub (h i hi).2⟩

theorem from_begun {es : List Interval} {xs : List (Instant × Option Declaration)}
    (x : Option Declaration)
    (h : ∀ i ∈ es, i.owner = owner ∧ (i.start, some ⟨i.range, i.version⟩) ∈ xs)
    (hx : (at_, x) ∈ xs) : From owner dependency ⟨es, begun at_ x⟩ xs := by
  intro i hi
  rcases List.mem_append.mp hi with hi | hi
  · exact h i hi
  · obtain ⟨o, ho, rfl⟩ := Option.map_eq_some_iff.mp (Option.mem_toList.mp hi)
    obtain ⟨rfl, rfl⟩ := begun_eq_some.mp ho
    exact ⟨rfl, hx⟩

theorem from_step {xs : List (Instant × Option Declaration)} {x : Option Declaration}
    (h : From owner dependency k xs) (hx : (at_, x) ∈ xs) :
    From owner dependency (k.step owner dependency at_ x) xs := by
  have hended : ∀ i ∈ k.ended, i.owner = owner ∧ (i.start, some ⟨i.range, i.version⟩) ∈ xs :=
    fun i hi => h i (List.mem_append_left _ hi)
  cases hc : k.current with
  | none =>
    rw [step_of_none hc]
    exact from_begun x hended hx
  | some o =>
    by_cases hv : x.map Declaration.version = some o.version
    · rwa [step_of_same hc hv]
    · rw [step_of_changed hc hv]
      refine from_begun x (fun i hi => ?_) hx
      rcases List.mem_append.mp hi with hi | hi
      · exact hended i hi
      · obtain ⟨-, rfl⟩ := mem_finished.mp hi
        have ho := h (Timeline.toInterval owner dependency o none)
          (List.mem_append_right _ (by simp [hc]))
        exact ho

/-! ## Runs -/

variable (owner dependency)

def follow (xs : List (Instant × Option Declaration)) : Track :=
  xs.foldl (fun k x => k.step owner dependency x.1 x.2) empty

theorem follow_concat (xs : List (Instant × Option Declaration))
    (x : Instant × Option Declaration) :
    follow owner dependency (xs ++ [x]) =
      (follow owner dependency xs).step owner dependency x.1 x.2 := by
  rw [follow, List.foldl_append]
  rfl

theorem ordered_follow {xs : List (Instant × Option Declaration)} (h : Chronological xs)
    (hnow : ∀ x ∈ xs, x.1 ≤ now) : (follow owner dependency xs).Ordered now := by
  induction xs using List.reverseRecOn generalizing now with
  | nil => exact ordered_empty now
  | append_singleton xs x ih =>
    obtain ⟨hxs, -, hx⟩ := List.pairwise_append.mp h
    have hbefore : ∀ y ∈ xs, y.1 ≤ x.1 := fun y hy => hx y hy x (List.mem_singleton_self x)
    rw [follow_concat]
    exact (ordered_step (ih hxs hbefore) x.2).mono (hnow x (by simp))

/-- A track covers an instant with the version that the run holds at it. -/
theorem covers_follow {xs : List (Instant × Option Declaration)} (h : Chronological xs)
    (version : String) (t : Instant) : (follow owner dependency xs).Covers version t ↔
      ∃ x, AsOf xs t x ∧ x.map Declaration.version = some version := by
  induction xs using List.reverseRecOn with
  | nil => simp [follow, Covers, empty, not_asOf_nil]
  | append_singleton xs x ih =>
    obtain ⟨hxs, -, hx⟩ := List.pairwise_append.mp h
    have hbefore : ∀ y ∈ xs, y.1 ≤ x.1 := fun y hy => hx y hy x (List.mem_singleton_self x)
    rw [follow_concat]
    by_cases hle : x.1 ≤ t
    · have hordered : ((follow owner dependency xs).step owner dependency x.1 x.2).Ordered x.1 :=
        ordered_step (ordered_follow owner dependency hxs hbefore) x.2
      rw [covers_of_le hordered hle, version_step]
      simp only [asOf_concat_of_le hle, exists_eq_left]
    · have hlt : t < x.1 := Int64.not_le.mp hle
      rw [covers_step_of_lt hlt, ih hxs]
      simp only [asOf_concat_of_lt hlt]

theorem from_follow (xs : List (Instant × Option Declaration)) :
    From owner dependency (follow owner dependency xs) xs := by
  induction xs using List.reverseRecOn with
  | nil => intro i hi; cases hi
  | append_singleton xs x ih =>
    rw [follow_concat]
    exact from_step (from_mono ih (List.subset_append_left xs [x])) (by simp)

end Track
end UsageGraph
