import UsageGraph.History.Timeline
import UsageGraph.Proofs.Lists

/-! # One dependency of a timeline

A timeline follows all dependencies at once, but none of them has an influence on another.

* `Declaration`: the range that a commit declares for a dependency, and the version it stands for.
* `Track`: the intervals of one dependency that have ended, and the one that still lasts.
* `Track.step`: takes in what one commit says of the dependency.
* `Timeline.track_advance`: on every track, `Timeline.advance` is `Track.step`.
* `Timeline.mem_intervals`, `Timeline.filter_intervals`: the intervals of a timeline are those of its
  tracks.
-/

namespace UsageGraph
set_option autoImplicit false

structure Declaration where
  range : String
  version : String
  deriving DecidableEq, Repr

structure Track where
  ended : List Interval
  current : Option OpenInterval

namespace Track
variable (owner dependency : String) (at_ : Instant)

def empty : Track := ⟨[], none⟩

/-- The interval that ends at an instant; one that starts there is none. -/
def finished (o : OpenInterval) : List Interval :=
  if o.start < at_ then [Timeline.toInterval owner dependency o (some at_)] else []

def begun (x : Option Declaration) : Option OpenInterval :=
  x.map fun x => ⟨x.version, x.range, at_⟩

/-- The interval goes on as long as its version does. -/
def step (k : Track) (x : Option Declaration) : Track :=
  match k.current with
  | none => ⟨k.ended, begun at_ x⟩
  | some o =>
    if x.map Declaration.version = some o.version then k
    else ⟨k.ended ++ finished owner dependency at_ o, begun at_ x⟩

def intervals (k : Track) : List Interval :=
  k.ended ++ (k.current.map fun o => Timeline.toInterval owner dependency o none).toList

variable {owner dependency at_}

theorem step_of_none {k : Track} (h : k.current = none) (x : Option Declaration) :
    k.step owner dependency at_ x = ⟨k.ended, begun at_ x⟩ := by simp [step, h]

theorem step_of_same {k : Track} {o : OpenInterval} (h : k.current = some o)
    {x : Option Declaration} (hx : x.map Declaration.version = some o.version) :
    k.step owner dependency at_ x = k := by simp [step, h, hx]

theorem step_of_changed {k : Track} {o : OpenInterval} (h : k.current = some o)
    {x : Option Declaration} (hx : x.map Declaration.version ≠ some o.version) :
    k.step owner dependency at_ x = ⟨k.ended ++ finished owner dependency at_ o, begun at_ x⟩ := by
  simp [step, h, hx]

theorem step_none_of_none {k : Track} (h : k.current = none) :
    k.step owner dependency at_ none = k := by
  obtain ⟨ended, current⟩ := k
  cases h
  rfl

theorem mem_finished {o : OpenInterval} {i : Interval} :
    i ∈ finished owner dependency at_ o ↔
      o.start < at_ ∧ i = Timeline.toInterval owner dependency o (some at_) := by
  unfold finished
  split <;> simp [*]

theorem mem_intervals {k : Track} {i : Interval} : i ∈ k.intervals owner dependency ↔
    i ∈ k.ended ∨ ∃ o, k.current = some o ∧ i = Timeline.toInterval owner dependency o none := by
  rw [intervals, List.mem_append, Option.mem_toList, Option.map_eq_some_iff]
  simp only [eq_comm]

theorem begun_eq_some {x : Option Declaration} {o : OpenInterval} :
    begun at_ x = some o ↔ x = some ⟨o.range, o.version⟩ ∧ o.start = at_ := by
  obtain ⟨version, range, start⟩ := o
  cases x with
  | none => simp [begun]
  | some x =>
    obtain ⟨range', version'⟩ := x
    simp only [begun, Option.map_some, Option.some.injEq, OpenInterval.mk.injEq,
      Declaration.mk.injEq]
    constructor
    · rintro ⟨rfl, rfl, rfl⟩
      exact ⟨⟨rfl, rfl⟩, rfl⟩
    · rintro ⟨⟨rfl, rfl⟩, rfl⟩
      exact ⟨rfl, rfl, rfl⟩

end Track

namespace Timeline
variable {owner : String} {at_ : Instant}

def track (t : Timeline) (dependency : String) : Track :=
  ⟨t.ended.filter (·.dependency = dependency), t.current.get? dependency⟩

/-! ## One dependency after the other -/

theorem filter_finished_self (d : String) (o : OpenInterval) :
    (Track.finished owner d at_ o).filter (·.dependency = d) = Track.finished owner d at_ o := by
  unfold Track.finished
  split <;> simp [toInterval]

theorem filter_finished_of_ne {d d' : String} (h : d' ≠ d) (o : OpenInterval) :
    (Track.finished owner d' at_ o).filter (·.dependency = d) = [] := by
  unfold Track.finished
  split <;> simp [toInterval, h]

theorem close_of_none {t : Timeline} {d : String} (h : t.current.get? d = none) :
    close owner at_ t d = t := by simp [close, h]

theorem close_of_some {t : Timeline} {d : String} {o : OpenInterval}
    (h : t.current.get? d = some o) :
    close owner at_ t d = ⟨t.current.erase d, t.ended ++ Track.finished owner d at_ o⟩ := by
  simp only [close, h, Track.finished]
  split <;> simp

theorem track_close_self (t : Timeline) (d : String) :
    (close owner at_ t d).track d = (t.track d).step owner d at_ none := by
  cases h : t.current.get? d with
  | none => rw [close_of_none h, Track.step_none_of_none h]
  | some o =>
    rw [close_of_some h, Track.step_of_changed (o := o) h (by simp)]
    simp [track, filter_finished_self, Track.begun]

theorem track_close_of_ne (t : Timeline) {d d' : String} (h : d' ≠ d) :
    (close owner at_ t d').track d = t.track d := by
  cases hc : t.current.get? d' with
  | none => rw [close_of_none hc]
  | some o =>
    rw [close_of_some hc]
    simp [track, filter_finished_of_ne h, Table.get?_erase_of_ne _ (Ne.symm h)]

theorem track_declare_self (t : Timeline) (d range version : String) :
    (declare owner at_ t d range version).track d =
      (t.track d).step owner d at_ (some ⟨range, version⟩) := by
  cases h : t.current.get? d with
  | none =>
    rw [Track.step_of_none h]
    simp [declare, h, close_of_none h, track, Track.begun]
  | some o =>
    by_cases hv : o.version = version
    · rw [Track.step_of_same (o := o) h (by simp [hv])]
      simp [declare, h, hv]
    · rw [Track.step_of_changed (o := o) h (by simp [Ne.symm hv])]
      simp [declare, h, hv, close_of_some h, track, filter_finished_self, Track.begun]

theorem track_declare_of_ne (t : Timeline) {d d' : String} (h : d' ≠ d) (range version : String) :
    (declare owner at_ t d' range version).track d = t.track d := by
  unfold declare
  split
  · rfl
  · rw [← @track_close_of_ne owner at_ t d d' h]
    simp [track, Table.get?_insert_of_ne _ _ (Ne.symm h)]

/-! ## A whole commit -/

section
variable {β : Type} {k : β → String} {d : String} {f : Timeline → β → Timeline}
  {g : β → Track → Track}

theorem track_foldl_of_notMem (hne : ∀ t b, k b ≠ d → (f t b).track d = t.track d)
    {bs : List β} (h : ∀ b ∈ bs, k b ≠ d) (t : Timeline) :
    (bs.foldl f t).track d = t.track d := by
  induction bs generalizing t with
  | nil => rfl
  | cons b bs ih =>
    rw [List.foldl_cons, ih (fun c hc => h c (List.mem_cons_of_mem _ hc)),
      hne t b (h b List.mem_cons_self)]

/-- As every k comes once, only one of the operations concerns a track. -/
theorem track_foldl_of_mem (hne : ∀ t b, k b ≠ d → (f t b).track d = t.track d)
    (hself : ∀ t b, k b = d → (f t b).track d = g b (t.track d))
    {bs : List β} (hnodup : (bs.map k).Nodup) {b : β} (hb : b ∈ bs) (hd : k b = d)
    (t : Timeline) : (bs.foldl f t).track d = g b (t.track d) := by
  induction bs generalizing t with
  | nil => cases hb
  | cons c bs ih =>
    rw [List.map_cons, List.nodup_cons] at hnodup
    rw [List.foldl_cons]
    rcases List.mem_cons.mp hb with rfl | hmem
    · have hrest : ∀ c ∈ bs, k c ≠ d := fun c hc he =>
        hnodup.1 (List.mem_map.mpr ⟨c, hc, he.trans hd.symm⟩)
      rw [track_foldl_of_notMem hne hrest, hself t b hd]
    · have hc : k c ≠ d := fun he =>
        hnodup.1 (List.mem_map.mpr ⟨b, hmem, hd.trans he.symm⟩)
      rw [ih hnodup.2 hmem, hne t c hc]

end

variable (resolve : String → String → String)

/-- What a table says of a dependency. -/
def declaration (declared : Table String) (d : String) : Option Declaration :=
  (declared.get? d).map fun range => ⟨range, resolve d range⟩

def declareAll (owner : String) (at_ : Instant) (declared : Table String) (t : Timeline) :
    Timeline :=
  declared.entries.foldl (fun t p => declare owner at_ t p.1 p.2 (resolve p.1 p.2)) t

theorem track_declareAll_of_none {declared : Table String} {d : String}
    (h : declared.get? d = none) (t : Timeline) :
    (declareAll resolve owner at_ declared t).track d = t.track d := by
  refine track_foldl_of_notMem (k := Prod.fst)
    (fun t p hp => track_declare_of_ne t hp _ _) (fun p hp he => ?_) t
  have hsome : declared.get? p.1 = some p.2 := Table.mem_entries.mp hp
  rw [he, h] at hsome
  cases hsome

theorem track_declareAll_of_some {declared : Table String} {d range : String}
    (h : declared.get? d = some range) (t : Timeline) :
    (declareAll resolve owner at_ declared t).track d =
      (t.track d).step owner d at_ (some ⟨range, resolve d range⟩) := by
  refine track_foldl_of_mem (k := Prod.fst)
    (g := fun p k => k.step owner d at_ (some ⟨p.2, resolve d p.2⟩))
    (fun t p hp => track_declare_of_ne t hp _ _) (fun t p hp => ?_) declared.nodup_keys
    (Table.mem_entries.mpr h) rfl t
  subst hp
  exact track_declare_self t p.1 p.2 _

theorem track_drop_of_some {declared : Table String} {d range : String}
    (h : declared.get? d = some range) (t : Timeline) :
    (drop owner at_ t declared).track d = t.track d := by
  refine track_foldl_of_notMem (k := id) (fun t e he => track_close_of_ne t he)
    (fun e he hd => ?_) t
  have hno := (List.mem_filter.mp he).2
  rw [show e = d from hd] at hno
  simp [Table.contains, h] at hno

theorem track_drop_of_none {declared : Table String} {d : String}
    (h : declared.get? d = none) (t : Timeline) :
    (drop owner at_ t declared).track d = (t.track d).step owner d at_ none := by
  cases hc : t.current.get? d with
  | none =>
    rw [Track.step_none_of_none hc]
    refine track_foldl_of_notMem (k := id) (fun t e he => track_close_of_ne t he)
      (fun e he hd => ?_) t
    obtain ⟨o, ho⟩ := Table.mem_keys.mp (List.mem_filter.mp he).1
    rw [show e = d from hd, hc] at ho
    cases ho
  | some o =>
    refine track_foldl_of_mem (k := id) (g := fun e k => k.step owner d at_ none)
      (fun t e he => track_close_of_ne t he) (fun t e he => ?_) ?_ ?_ rfl t
    · rw [show e = d from he]
      exact track_close_self t d
    · rw [List.map_id]
      exact t.current.nodup_keys.filter _
    · rw [List.mem_filter]
      exact ⟨Table.mem_keys.mpr ⟨o, hc⟩, by simp [Table.contains, h]⟩

/-- No dependency has an influence on another. -/
theorem track_advance (declared : Table String) (t : Timeline) (d : String) :
    (advance owner at_ resolve declared t).track d =
      (t.track d).step owner d at_ (declaration resolve declared d) := by
  change (drop owner at_ (declareAll resolve owner at_ declared t) declared).track d = _
  cases h : declared.get? d with
  | none => rw [track_drop_of_none h, track_declareAll_of_none resolve h]; simp [declaration, h]
  | some range =>
    rw [track_drop_of_some h, track_declareAll_of_some resolve h]
    simp [declaration, h]

/-! ## All intervals -/

theorem mem_intervals {t : Timeline} {i : Interval} :
    i ∈ t.intervals owner ↔ i ∈ (t.track i.dependency).intervals owner i.dependency := by
  rw [intervals, List.mem_mergeSort, List.mem_append]
  simp only [Track.intervals, track, List.mem_append, List.mem_filter, decide_true, and_true,
    Option.mem_toList, Option.map_eq_some_iff]
  refine or_congr_right ?_
  rw [Table.map, List.mem_map]
  constructor
  · rintro ⟨⟨d, o⟩, hmem, rfl⟩
    exact ⟨o, Table.mem_entries.mp hmem, rfl⟩
  · rintro ⟨o, ho, hi⟩
    exact ⟨(i.dependency, o), Table.mem_entries.mpr ho, hi⟩

/-! ## The order of the intervals -/

theorem before_iff {a b : Interval} : before a b = true ↔
    a.dependency < b.dependency ∨ a.dependency = b.dependency ∧ a.start ≤ b.start := by
  simp [before]

theorem before_trans (a b c : Interval) (hab : before a b) (hbc : before b c) : before a c := by
  rw [before_iff] at hab hbc ⊢
  rcases hab with hab | ⟨hab, hs⟩
  · rcases hbc with hbc | ⟨hbc, -⟩
    · exact .inl (String.lt_trans hab hbc)
    · exact .inl (hbc ▸ hab)
  · rcases hbc with hbc | ⟨hbc, hs'⟩
    · exact .inl (hab ▸ hbc)
    · refine .inr ⟨hab.trans hbc, ?_⟩
      rw [Int64.le_iff_toInt_le] at hs hs' ⊢
      omega

theorem before_total (a b : Interval) : before a b || before b a := by
  rw [Bool.or_eq_true, before_iff, before_iff]
  by_cases h : a.dependency = b.dependency
  · have hs : a.start ≤ b.start ∨ b.start ≤ a.start := by
      simp only [Int64.le_iff_toInt_le]
      omega
    exact hs.imp (fun hs => .inr ⟨h, hs⟩) fun hs => .inr ⟨h.symm, hs⟩
  · exact (Table.lt_or_lt_of_ne h).imp .inl .inl

theorem intervals_pairwise (t : Timeline) : (t.intervals owner).Pairwise fun a b => before a b :=
  List.pairwise_mergeSort before_trans before_total _

theorem dependency_of_mem_track {t : Timeline} {d : String} {i : Interval}
    (h : i ∈ (t.track d).intervals owner d) : i.dependency = d := by
  simp only [Track.intervals, track, List.mem_append, List.mem_filter, decide_eq_true_eq,
    Option.mem_toList, Option.map_eq_some_iff] at h
  rcases h with ⟨-, h⟩ | ⟨o, -, rfl⟩
  · exact h
  · rfl

/-- The intervals of one dependency are those of its track, in the order of the track. -/
theorem filter_intervals {t : Timeline} {d : String}
    (h : ((t.track d).intervals owner d).Pairwise fun a b => a.start ≤ b.start) :
    (t.intervals owner).filter (·.dependency = d) = (t.track d).intervals owner d := by
  have htrack : (t.ended ++ t.current.map fun p => toInterval owner p.1 p.2 none).filter
      (·.dependency = d) = (t.track d).intervals owner d := by
    rw [List.filter_append, Track.intervals, Table.map, List.filter_map]
    refine congrArg _ ?_
    change (t.current.entries.filter fun p => decide (p.1 = d)).map _ = _
    rw [Table.filter_key, track]
    cases t.current.get? d <;> rfl
  have hsorted : ((t.track d).intervals owner d).Pairwise fun a b => before a b := by
    refine h.imp_of_mem fun ha hb hs => before_iff.mpr (.inr ⟨?_, hs⟩)
    rw [dependency_of_mem_track ha, dependency_of_mem_track hb]
  rw [intervals, filter_mergeSort before_trans before_total _ (htrack ▸ hsorted), htrack]

end Timeline
end UsageGraph
