import UsageGraph.Proofs.History.AsOf
import UsageGraph.Proofs.History.WellFormed

/-! # Histories that go on

A repository that is extracted again later has more commits. What was extracted before is not
rewritten.

* `Track.Grows`: what further values leave of a track. `Track.Grows.step` and `Track.grows_run`
  carry it over one value and over a run of them.
* `momentsSince_append`: the dates of the first commits do not depend on those that follow.
* `Extends`: what a longer history leaves of the intervals of a shorter one.
* `Extractor.extract_extends`: an extraction extends every earlier one.
-/

namespace UsageGraph
set_option autoImplicit false

/-! ## One track -/

namespace Track
variable {owner dependency : String} {at_ now : Instant} {k k' : Track}
  {ys : List (Instant × Option Declaration)}

/-- A value either leaves the track alone or ends what lasts and begins anew. -/
theorem step_cases (k : Track) (x : Option Declaration) :
    k.step owner dependency at_ x = k ∨
    (∀ o, k.current = some o → x.map Declaration.version ≠ some o.version) ∧
      k.step owner dependency at_ x =
        ⟨k.ended ++ k.current.elim [] (finished owner dependency at_), begun at_ x⟩ := by
  cases hc : k.current with
  | none =>
    refine .inr ⟨nofun, ?_⟩
    rw [step_of_none hc, Option.elim_none, List.append_nil]
  | some o =>
    by_cases hv : x.map Declaration.version = some o.version
    · exact .inl (step_of_same hc hv)
    · refine .inr ⟨fun o' ho' => ?_, step_of_changed hc hv⟩
      cases ho'
      exact hv

/-- An interval of the next track was there before, or ends one that was open, or begins now. -/
theorem mem_intervals_step {i : Interval} {x : Option Declaration}
    (hi : i ∈ (k.step owner dependency at_ x).intervals owner dependency) :
    i ∈ k.intervals owner dependency ∨
    (∃ o, k.current = some o ∧ i = Timeline.toInterval owner dependency o (some at_)) ∨
    i.start = at_ := by
  rcases @step_cases owner dependency at_ k x with hsame | ⟨-, hstep⟩
  · rw [hsame] at hi
    exact .inl hi
  rw [hstep] at hi
  rcases mem_intervals.mp hi with hi | ⟨o, ho, rfl⟩
  · rcases List.mem_append.mp hi with hi | hi
    · exact .inl (List.mem_append_left _ hi)
    · cases hc : k.current with
      | none =>
        rw [hc] at hi
        cases hi
      | some o =>
        rw [hc, Option.elim_some, mem_finished] at hi
        exact .inr (.inl ⟨o, rfl, hi.2⟩)
  · exact .inr (.inr (begun_eq_some.mp ho).2)

/-- What a track has come to after some values, which are dated from an instant on. -/
structure Grows (owner dependency : String) (now : Instant)
    (ys : List (Instant × Option Declaration)) (k k' : Track) : Prop where
  ended : k.ended ⊆ k'.ended
  current : ∀ o, k.current = some o → k'.current = some o ∨
    (∃ stop, o.start < stop ∧ Timeline.toInterval owner dependency o (some stop) ∈ k'.ended) ∨
    ∃ y ∈ ys, y.1 = o.start ∧ y.2.map Declaration.version ≠ some o.version
  started : ∀ i ∈ k'.intervals owner dependency, i ∈ k.ended ∨
    (∃ o, k.current = some o ∧ i = Timeline.toInterval owner dependency o i.stop) ∨ now ≤ i.start

theorem grows_refl (owner dependency : String) (now : Instant) (k : Track) :
    Grows owner dependency now [] k k where
  ended := List.Subset.refl _
  current _ ho := .inl ho
  started i hi := by
    rcases mem_intervals.mp hi with hi | ⟨o, ho, rfl⟩
    · exact .inl hi
    · exact .inr (.inl ⟨o, ho, rfl⟩)

theorem Grows.mono {zs : List (Instant × Option Declaration)}
    (h : Grows owner dependency now ys k k') (hsub : ys ⊆ zs) :
    Grows owner dependency now zs k k' where
  ended := h.ended
  current o ho := (h.current o ho).imp_right fun h =>
    h.imp_right fun ⟨y, hy, hdate, hchanged⟩ => ⟨y, hsub hy, hdate, hchanged⟩
  started := h.started

theorem Grows.step (hk : k.Ordered now) (h : Grows owner dependency now ys k k')
    (hnow : now ≤ at_) (x : Option Declaration) :
    Grows owner dependency now (ys ++ [(at_, x)]) k (k'.step owner dependency at_ x) := by
  have hkept := h.mono (List.subset_append_left ys [(at_, x)])
  constructor
  case ended =>
    rcases @step_cases owner dependency at_ k' x with hsame | ⟨-, hstep⟩
    · rw [hsame]
      exact h.ended
    · rw [hstep]
      exact List.subset_append_of_subset_left _ h.ended
  case current =>
    intro o ho
    rcases @step_cases owner dependency at_ k' x with hsame | ⟨hchanged, hstep⟩
    · rw [hsame]
      exact hkept.current o ho
    rw [hstep]
    rcases hkept.current o ho with ho' | ⟨stop, hlt, hmem⟩ | hdropped
    · by_cases hlt : o.start < at_
      · refine .inr (.inl ⟨at_, hlt, List.mem_append_right _ ?_⟩)
        rw [ho', Option.elim_some, mem_finished]
        exact ⟨hlt, rfl⟩
      · -- The interval has started just now, so it leaves no trace.
        have hle := Int64.le_trans (hk.current o ho) hnow
        have hat : at_ = o.start := Int64.le_antisymm (Int64.not_lt.mp hlt) hle
        exact .inr (.inr ⟨(at_, x), by simp, hat, hchanged o ho'⟩)
    · exact .inr (.inl ⟨stop, hlt, List.mem_append_left _ hmem⟩)
    · exact .inr (.inr hdropped)
  case started =>
    intro i hi
    rcases mem_intervals_step hi with hi | ⟨o', hc, rfl⟩ | hstart
    · exact h.started i hi
    · -- An interval that ends now was open before, and is judged by what it was then.
      rcases h.started _ (mem_intervals.mpr (.inr ⟨o', hc, rfl⟩)) with
        hended | ⟨o, ho, hsame⟩ | hlate
      · obtain ⟨stop, hstop, -⟩ := hk.ended _ hended
        cases hstop
      · obtain ⟨version, range, start⟩ := o
        cases hsame
        exact .inr (.inl ⟨_, ho, rfl⟩)
      · exact .inr (.inr hlate)
    · rw [hstart]
      exact .inr (.inr hnow)

def run (owner dependency : String) (k : Track) (ys : List (Instant × Option Declaration)) :
    Track := ys.foldl (fun k y => k.step owner dependency y.1 y.2) k

theorem grows_run (hk : k.Ordered now) (hnow : ∀ y ∈ ys, now ≤ y.1) :
    Grows owner dependency now ys k (run owner dependency k ys) := by
  induction ys using List.reverseRecOn with
  | nil => exact grows_refl owner dependency now k
  | append_singleton ys y ih =>
    rw [run, List.foldl_append]
    have hbefore := ih fun z hz => hnow z (List.mem_append_left _ hz)
    exact hbefore.step hk (hnow y (by simp)) y.2

end Track

/-! ## The dates of the commits -/

theorem le_latestSince (t : Instant) (cs : List Commit) : t ≤ latestSince t cs := by
  induction cs generalizing t with
  | nil => exact Int64.le_refl t
  | cons c cs ih => exact Int64.le_trans (le_later _ _) (ih (Extractor.later c.timestamp t))

theorem le_latestSince_of_mem {t : Instant} {cs : List Commit} {ms : List (Option Manifest)}
    {x : Instant × Table String} (h : x ∈ momentsSince t cs ms) : x.1 ≤ latestSince t cs := by
  induction cs generalizing t ms with
  | nil => cases h
  | cons c cs ih =>
    cases ms with
    | nil => simp [momentsSince] at h
    | cons m ms =>
      rw [momentsSince_cons] at h
      rcases List.mem_cons.mp h with rfl | h
      · exact le_latestSince _ cs
      · exact ih h

theorem momentsSince_append {t : Instant} {cs later : List Commit} {ms ms' : List (Option Manifest)}
    (h : ms.length = cs.length) : momentsSince t (cs ++ later) (ms ++ ms') =
      momentsSince t cs ms ++ momentsSince (latestSince t cs) later ms' := by
  induction cs generalizing t ms with
  | nil =>
    rw [List.length_eq_zero_iff.mp h]
    rfl
  | cons c cs ih =>
    obtain ⟨m, ms, rfl⟩ := List.exists_cons_of_length_eq_add_one h
    rw [List.length_cons, List.length_cons, Nat.add_right_cancel_iff] at h
    rw [List.cons_append, List.cons_append, momentsSince_cons, momentsSince_cons, ih h,
      List.cons_append]
    rfl

theorem length_momentsSince {t : Instant} {cs : List Commit} {ms : List (Option Manifest)}
    (h : ms.length = cs.length) : (momentsSince t cs ms).length = cs.length := by
  simp [momentsSince, h]

/-! ## Whole timelines -/

/-- What is left of some intervals when their history goes on. The last commit before is dated
`now`, and `later` are the moments of the commits that have been added. -/
structure Extends (resolve : String → String → String) (now : Instant)
    (later : List (Instant × Table String)) (is js : List Interval) : Prop where
  ended : ∀ i ∈ is, i.isOpen = false → i ∈ js
  current : ∀ i ∈ is, i.isOpen →
    (∃ stop, { i with stop := stop } ∈ js ∧ ∀ t, stop = some t → i.start < t) ∨
    (∀ stop, { i with stop := stop } ∉ js) ∧ ∃ declared, (i.start, declared) ∈ later ∧
      ∀ range, declared.get? i.dependency = some range → resolve i.dependency range ≠ i.version
  started : ∀ j ∈ js, j ∈ is ∨ (∃ i ∈ is, i.isOpen ∧ j = { i with stop := j.stop }) ∨ now ≤ j.start

namespace Timeline
variable (owner : String) (resolve : String → String → String)
  {now : Instant} {xs ys : List (Instant × Table String)}

theorem track_follow_append (d : String) : (follow owner resolve .empty (xs ++ ys)).track d =
    ((follow owner resolve .empty xs).track d).run owner d (saidOf resolve d ys) := by
  rw [track_follow, track_follow, saidOf, List.map_append, Track.follow, List.foldl_append]
  rfl

theorem grows_follow (hxs : Chronological xs) (hbefore : ∀ x ∈ xs, x.1 ≤ now)
    (hafter : ∀ y ∈ ys, now ≤ y.1) (d : String) :
    Track.Grows owner d now (saidOf resolve d ys) ((follow owner resolve .empty xs).track d)
      ((follow owner resolve .empty (xs ++ ys)).track d) := by
  rw [track_follow_append]
  refine Track.grows_run ?_ fun y hy => ?_
  · rw [track_follow]
    refine Track.ordered_follow owner d (chronological_saidOf resolve hxs d) fun x hx => ?_
    obtain ⟨x', hx', rfl⟩ := List.mem_map.mp hx
    exact hbefore x' hx'
  · obtain ⟨y', hy', rfl⟩ := List.mem_map.mp hy
    exact hafter y' hy'

/-- An open interval of which nothing is left has been taken back at its start. -/
theorem dropped_of_gone (hxs : Chronological xs) (hbefore : ∀ x ∈ xs, x.1 ≤ now)
    (hafter : ∀ y ∈ ys, now ≤ y.1) {i : Interval}
    (hi : i ∈ (follow owner resolve .empty xs).intervals owner) (hopen : i.isOpen)
    (hgone : ∀ stop, { i with stop := stop } ∉
      (follow owner resolve .empty (xs ++ ys)).intervals owner) :
    ∃ declared, (i.start, declared) ∈ ys ∧ ∀ range,
      declared.get? i.dependency = some range → resolve i.dependency range ≠ i.version := by
  rcases Track.mem_intervals.mp (mem_intervals.mp hi) with hended | ⟨o, ho, hi'⟩
  · obtain ⟨stop, hstop, -⟩ := (ordered_track_follow owner resolve hxs i.dependency).ended i hended
    rw [Interval.isOpen, hstop] at hopen
    cases hopen
  have hlast : ∀ stop, { i with stop := stop } = toInterval owner i.dependency o stop := by
    intro stop
    rw [hi']
    rfl
  have hgrows := grows_follow owner resolve hxs hbefore hafter i.dependency
  rcases hgrows.current o ho with hgoes | ⟨stop, -, hended⟩ | ⟨y, hy, hdate, hchanged⟩
  · refine absurd (mem_intervals.mpr ?_) (hgone none)
    exact Track.mem_intervals.mpr (.inr ⟨o, hgoes, hlast none⟩)
  · refine absurd (mem_intervals.mpr ?_) (hgone (some stop))
    rw [hlast]
    exact List.mem_append_left _ hended
  · obtain ⟨⟨start, declared⟩, hmem, rfl⟩ := List.mem_map.mp hy
    have hstart : i.start = start := by
      rw [hi']
      exact hdate.symm
    have hversion : i.version = o.version := by
      rw [hi']
      rfl
    refine ⟨declared, hstart ▸ hmem, fun range hrange hresolve => hchanged ?_⟩
    rw [← hversion]
    exact (map_version_eq_some resolve).mpr ⟨range, hrange, hresolve⟩

theorem extends_follow (h : Chronological (xs ++ ys)) (hbefore : ∀ x ∈ xs, x.1 ≤ now)
    (hafter : ∀ y ∈ ys, now ≤ y.1) :
    Extends resolve now ys ((follow owner resolve .empty xs).intervals owner)
      ((follow owner resolve .empty (xs ++ ys)).intervals owner) := by
  have hxs : Chronological xs := (List.pairwise_append.mp h).1
  have hgrows := grows_follow owner resolve hxs hbefore hafter
  constructor
  case ended =>
    intro i hi hopen
    rcases Track.mem_intervals.mp (mem_intervals.mp hi) with hended | ⟨o, -, hi'⟩
    · exact mem_intervals.mpr (List.mem_append_left _ ((hgrows i.dependency).ended hended))
    · rw [hi'] at hopen
      cases hopen
  case current =>
    intro i hi hopen
    by_cases hthere : ∃ stop, { i with stop := stop } ∈
        (follow owner resolve .empty (xs ++ ys)).intervals owner
    · obtain ⟨stop, hstop⟩ := hthere
      refine .inl ⟨stop, hstop, fun t ht => ?_⟩
      exact (wellFormed_intervals owner resolve h).proper _ hstop t ht
    · have hgone := not_exists.mp hthere
      exact .inr ⟨hgone, dropped_of_gone owner resolve hxs hbefore hafter hi hopen hgone⟩
  case started =>
    intro j hj
    rcases (hgrows j.dependency).started j (mem_intervals.mp hj) with
      hended | ⟨o, ho, hj'⟩ | hlate
    · exact .inl (mem_intervals.mpr (List.mem_append_left _ hended))
    · refine .inr (.inl ⟨toInterval owner j.dependency o none, mem_intervals.mpr ?_, rfl, hj'⟩)
      exact Track.mem_intervals.mpr (.inr ⟨o, ho, rfl⟩)
    · exact .inr (.inr hlate)

end Timeline

/-! ## Extractions -/

/-- The first commit of `HistorySource.backwards`. -/
def HistorySource.firstCommit : HistorySource (Option Manifest) :=
  written [(⟨"a0", 100⟩, some (declaring [("c/d", "1.0.0")]))]

namespace Extractor
open HistorySource
variable {σ τ : Type}

/-- A history that goes on keeps the intervals that have ended, and ends an open one after its start
unless it takes it back at its start. All other intervals start no earlier than the last commit
before. -/
theorem extract_extends {x : Extractor} {source : HistorySource σ} {source' : HistorySource τ}
    {s : σ} {s' : τ} {commits later : List Commit} {ms ms' : List (Option Manifest)}
    (owner : String)
    (hcommits : (source.commits s).result = .ok commits)
    (hcommits' : (source'.commits s').result = .ok (commits ++ later))
    (hfew : (commits ++ later).length ≤ x.maxCommits)
    (hread : (source.readings commits (source.commits s).state).result = .ok ms)
    (hread' : (source'.readings (commits ++ later) (source'.commits s').state).result =
      .ok (ms ++ ms')) :
    ∃ history history', (x.extract owner source s).result = .ok history ∧
      (x.extract owner source' s').result = .ok history' ∧
      Extends x.resolver.resolve (latestSince Int64.minValue commits)
        ((moments (commits ++ later) (ms ++ ms')).drop commits.length)
        history.intervals history'.intervals := by
  have hlength := HistorySource.length_readings hread
  have hshort : commits.length ≤ x.maxCommits := by
    rw [List.length_append] at hfew
    omega
  have happend : moments (commits ++ later) (ms ++ ms') = moments commits ms ++
      momentsSince (latestSince Int64.minValue commits) later ms' := momentsSince_append hlength
  have hdrop : (moments (commits ++ later) (ms ++ ms')).drop commits.length =
      momentsSince (latestSince Int64.minValue commits) later ms' := by
    rw [happend]
    exact List.drop_left' (length_momentsSince hlength)
  refine ⟨x.historyOf owner commits ms, x.historyOf owner (commits ++ later) (ms ++ ms'),
    result_extract_of_readings owner hcommits hshort hread,
    result_extract_of_readings owner hcommits' hfew hread', ?_⟩
  rw [hdrop, historyOf, historyOf, happend]
  refine Timeline.extends_follow owner x.resolver.resolve ?_ (fun y hy => le_latestSince_of_mem hy)
    fun y hy => le_of_mem_momentsSince hy
  rw [← happend]
  exact chronological_momentsSince _ _ _

/-- The interval of the first commit is taken back at its start by the second one. -/
theorem extract_extends_backwards : Extends unpublished.resolver.resolve 100
    [(100, Table.ofList [("c/d", "2.0.0")]), (200, .empty)]
    [⟨"a/b", "c/d", "1.0.0", "1.0.0", 100, none⟩]
    [⟨"a/b", "c/d", "2.0.0", "2.0.0", 100, some 200⟩] := by
  obtain ⟨history, history', hresult, hresult', hextends⟩ :=
    @extract_extends _ _ unpublished firstCommit backwards none none [⟨"a0", 100⟩]
      [⟨"a1", 50⟩, ⟨"a2", 200⟩] [some (declaring [("c/d", "1.0.0")])]
      [some (declaring [("c/d", "2.0.0")]), none] "a/b" rfl rfl (by decide) rfl rfl
  have hfirst : (unpublished.extract "a/b" firstCommit none).result =
      .ok ⟨[⟨"a/b", "c/d", "1.0.0", "1.0.0", 100, none⟩], ⟨some 100, some 100⟩, 1, false⟩ := by
    decide +kernel
  have hall : (unpublished.extract "a/b" backwards none).result =
      .ok ⟨[⟨"a/b", "c/d", "2.0.0", "2.0.0", 100, some 200⟩], ⟨some 100, some 200⟩, 3, false⟩ := by
    decide +kernel
  obtain rfl := Except.ok.inj (hfirst.symm.trans hresult)
  obtain rfl := Except.ok.inj (hall.symm.trans hresult')
  exact hextends

end Extractor
end UsageGraph
