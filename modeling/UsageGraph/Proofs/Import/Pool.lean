import Mathlib.Algebra.GroupWithZero.Nat
import Mathlib.Data.List.Induction
import Mathlib.Data.List.Perm.Basic
import UsageGraph.Import.Pool

/-! # The accounts of a pool

Whatever order imports end and are recorded in, a pool loses none of them and counts none twice.

* `Pool.Consistent`: where the repositories of a run are, and what has been counted of them. Every
  move keeps it.
* `Pool.remaining`: the number of moves that are still to be made. Every move is one of them.
* `Pool.exists_step`: a pool that is not closed can make a move.
* `Pool.Available`: a pool that is new, or whose runs have all been closed.
* `Pool.run_accounts`: the report of a run.
* `Pool.run_of_runJobs`: imports one after another are a run of a pool.
-/

namespace UsageGraph
set_option autoImplicit false

/-! ## What is counted -/

namespace JobEnd

def isFailure : JobEnd → Bool
  | finished _ => false
  | failed _ => true
  | crashed _ => true

/-- The references that a job stored. -/
def references : JobEnd → Nat
  | finished s => s.references.toNat
  | failed _ => 0
  | crashed _ => 0

def intervals : JobEnd → Nat
  | finished s => s.intervals.toNat
  | failed _ => 0
  | crashed _ => 0

end JobEnd

namespace Progress

def recordAll (p : Progress) (ends : List JobEnd) : Progress := ends.foldl record p

variable (p : Progress) (e : JobEnd) (ends : List JobEnd)

theorem recordAll_concat : p.recordAll (ends ++ [e]) = (p.recordAll ends).record e := by
  rw [recordAll, List.foldl_append]
  rfl

theorem record_eq : p.record e = { p with
    done := p.done + 1
    failed := p.failed + .ofNat e.isFailure.toNat
    references := p.references + .ofNat e.references
    intervals := p.intervals + .ofNat e.intervals } := by
  cases e with
  | finished s =>
    simp [record, succeed, JobEnd.isFailure, JobEnd.references, JobEnd.intervals]
  | failed f => simp [record, fail, JobEnd.isFailure, JobEnd.references, JobEnd.intervals]
  | crashed reason => simp [record, fail, JobEnd.isFailure, JobEnd.references, JobEnd.intervals]

/-- The counters after some ends, each by itself. -/
theorem recordAll_start (total : UInt64) : (start total).recordAll ends =
    ⟨true, total, .ofNat ends.length, .ofNat (ends.countP JobEnd.isFailure),
      .ofNat (ends.map JobEnd.references).sum, .ofNat (ends.map JobEnd.intervals).sum⟩ := by
  induction ends using List.reverseRecOn with
  | nil => rfl
  | append_singleton ends e ih =>
    have hcount : (ends ++ [e]).countP JobEnd.isFailure =
        ends.countP JobEnd.isFailure + e.isFailure.toNat := by
      rw [List.countP_append, List.countP_singleton]
      cases e.isFailure <;> rfl
    rw [recordAll_concat, ih, record_eq, hcount]
    simp [UInt64.ofNat_add]

end Progress

/-! ## The moves -/

/-- The moves to the end of a pool in which nothing waits or runs. -/
def Phase.remaining : Phase → Nat
  | .launching => 1
  | .collecting => 2
  | .draining => 1
  | .closed => 0

namespace Pool
variable {asked n : Nat} {ending : JobEnd} {repos : List Repository} {m : Move} {p q : Pool}

theorem launch_eq_some (h : p.launch = some q) : ∃ repo rest, p.waiting = repo :: rest ∧
    p.phase = .launching ∧ p.running.length < p.slots ∧ q = { p with
      phase := .collecting
      waiting := rest
      running := p.running ++ [repo]
      started := p.started ++ [repo] } := by
  rw [launch] at h
  split at h
  · cases h
  · next repo rest hwaiting =>
    obtain ⟨⟨hphase, hfree⟩, heq⟩ := Option.ite_none_right_eq_some.mp h
    exact ⟨repo, rest, hwaiting, hphase, hfree, (Option.some.inj heq).symm⟩

theorem finish_eq_some (h : p.finish n ending = some q) : ∃ repo, p.running[n]? = some repo ∧
    q = { p with running := p.running.eraseIdx n, ended := p.ended ++ [(repo, ending)] } := by
  obtain ⟨repo, hrepo, heq⟩ := Option.map_eq_some_iff.mp h
  exact ⟨repo, hrepo, heq.symm⟩

theorem record_eq_some (h : p.record n = some q) : ∃ e, p.ended[n]? = some e ∧
    (p.phase = .collecting ∨ p.phase = .draining) ∧ q = { p with
      ended := p.ended.eraseIdx n
      recorded := p.recorded ++ [e]
      progress := p.progress.record e.2 } := by
  obtain ⟨hphase, h⟩ := Option.ite_none_right_eq_some.mp h
  obtain ⟨e, he, heq⟩ := Option.map_eq_some_iff.mp h
  exact ⟨e, he, hphase, heq.symm⟩

theorem resume_eq_some (h : p.resume = some q) :
    p.phase = .collecting ∧ q = { p with phase := phaseBefore p.waiting } := by
  obtain ⟨hphase, heq⟩ := Option.ite_none_right_eq_some.mp h
  exact ⟨hphase, (Option.some.inj heq).symm⟩

theorem close_eq_some (h : p.close = some q) : p.phase = .draining ∧ p.running = [] ∧ p.ended = [] ∧
    q = { p with phase := .closed, progress := p.progress.finish } := by
  obtain ⟨⟨hphase, hrunning, hended⟩, heq⟩ := Option.ite_none_right_eq_some.mp h
  exact ⟨hphase, hrunning, hended, (Option.some.inj heq).symm⟩

/-! ## The state of a run -/

/-- Where the repositories of a run are, and what has been counted of them. -/
structure Consistent (asked : Nat) (repos : List Repository) (p : Pool) : Prop where
  slots : p.slots = UsageGraph.slots asked
  started : p.started ++ p.waiting = repos
  accounted : (p.running ++ p.ended.map Prod.fst ++ p.recorded.map Prod.fst).Perm p.started
  bounded : p.running.length ≤ p.slots
  counts : { p.progress with active := true } =
    (Progress.start repos.length.toUInt64).recordAll (p.recorded.map Prod.snd)
  active : p.progress.active = decide (p.phase ≠ .closed)
  launching : p.phase = .launching → p.waiting ≠ []
  draining : p.phase = .draining → p.waiting = []
  closed : p.phase = .closed → p.waiting = [] ∧ p.running = [] ∧ p.ended = []

theorem ne_nil_of_phaseBefore (h : phaseBefore repos = .launching) : repos ≠ [] := by
  rintro rfl
  cases h

theorem eq_nil_of_phaseBefore (h : phaseBefore repos = .draining) : repos = [] := by
  cases repos with
  | nil => rfl
  | cons r rs => cases h

theorem phaseBefore_ne_closed (repos : List Repository) : phaseBefore repos ≠ .closed := by
  cases repos <;> nofun

theorem perm_eraseIdx {α : Type} {l : List α} {a : α} (h : l[n]? = some a) :
    (a :: l.eraseIdx n).Perm l := by
  obtain ⟨hlt, rfl⟩ := List.getElem?_eq_some_iff.mp h
  exact List.getElem_cons_eraseIdx_perm hlt

section
variable (hp : p.Consistent asked repos)
include hp

theorem Consistent.launch (h : p.launch = some q) : q.Consistent asked repos := by
  obtain ⟨repo, rest, hwaiting, hphase, hfree, rfl⟩ := launch_eq_some h
  constructor
  case slots => exact hp.slots
  case started => rw [List.append_assoc, List.singleton_append, ← hwaiting, hp.started]
  case accounted =>
    refine List.perm_iff_count.mpr fun r => ?_
    have hcount := hp.accounted.count r
    simp only [List.count_append] at hcount ⊢
    omega
  case bounded =>
    rw [List.length_append]
    exact hfree
  case counts => exact hp.counts
  case active =>
    rw [hp.active, hphase]
    rfl
  case launching => nofun
  case draining => nofun
  case closed => nofun

theorem Consistent.finish (h : p.finish n ending = some q) : q.Consistent asked repos := by
  obtain ⟨repo, hrepo, rfl⟩ := finish_eq_some h
  have hperm := perm_eraseIdx hrepo
  constructor
  case slots => exact hp.slots
  case started => exact hp.started
  case accounted =>
    refine List.perm_iff_count.mpr fun r => ?_
    have hcount := hp.accounted.count r
    have hrunning := hperm.count r
    rw [List.map_append, List.map_singleton]
    rw [List.count_cons] at hrunning
    simp only [List.count_append, List.count_singleton] at hcount ⊢
    omega
  case bounded =>
    have hlength := hperm.length_eq
    have hbounded := hp.bounded
    rw [List.length_cons] at hlength
    change (p.running.eraseIdx n).length ≤ p.slots
    omega
  case counts => exact hp.counts
  case active => exact hp.active
  case launching => exact hp.launching
  case draining => exact hp.draining
  case closed =>
    intro hphase
    rw [(hp.closed hphase).2.1] at hrepo
    cases hrepo

theorem Consistent.record (h : p.record n = some q) : q.Consistent asked repos := by
  obtain ⟨e, he, hphase, rfl⟩ := record_eq_some h
  have hperm := (perm_eraseIdx he).map Prod.fst
  constructor
  case slots => exact hp.slots
  case started => exact hp.started
  case accounted =>
    refine List.perm_iff_count.mpr fun r => ?_
    have hcount := hp.accounted.count r
    have hended := hperm.count r
    rw [List.map_append, List.map_singleton]
    rw [List.map_cons, List.count_cons] at hended
    simp only [List.count_append, List.count_singleton] at hcount ⊢
    omega
  case bounded => exact hp.bounded
  case counts =>
    rw [List.map_append, List.map_singleton, Progress.recordAll_concat, ← hp.counts]
    cases e.2 <;> rfl
  case active =>
    refine Eq.trans ?_ hp.active
    change (p.progress.record e.2).active = p.progress.active
    cases e.2 <;> rfl
  case launching => exact hp.launching
  case draining => exact hp.draining
  case closed =>
    intro hclosed
    change p.phase = .closed at hclosed
    rw [hclosed] at hphase
    rcases hphase with hphase | hphase <;> cases hphase

theorem Consistent.resume (h : p.resume = some q) : q.Consistent asked repos := by
  obtain ⟨hphase, rfl⟩ := resume_eq_some h
  have hopen := phaseBefore_ne_closed p.waiting
  constructor
  case slots => exact hp.slots
  case started => exact hp.started
  case accounted => exact hp.accounted
  case bounded => exact hp.bounded
  case counts => exact hp.counts
  case active =>
    refine (hp.active.trans ?_).trans (decide_eq_true hopen).symm
    rw [hphase]
    rfl
  case launching => exact ne_nil_of_phaseBefore
  case draining => exact eq_nil_of_phaseBefore
  case closed => exact fun hclosed => absurd hclosed hopen

theorem Consistent.close (h : p.close = some q) : q.Consistent asked repos := by
  obtain ⟨hphase, hrunning, hended, rfl⟩ := close_eq_some h
  constructor
  case slots => exact hp.slots
  case started => exact hp.started
  case accounted => exact hp.accounted
  case bounded => exact hp.bounded
  case counts => exact hp.counts
  case active => rfl
  case launching => nofun
  case draining => nofun
  case closed => exact fun _ => ⟨hp.draining hphase, hrunning, hended⟩

/-- No move loses a repository or counts one twice. -/
theorem Consistent.step (h : p.step m = some q) : q.Consistent asked repos := by
  cases m with
  | launch => exact hp.launch h
  | finish n ending => exact hp.finish h
  | record n => exact hp.record h
  | resume => exact hp.resume h
  | close => exact hp.close h

theorem Consistent.run {moves : List Move} (h : run moves p = some q) :
    q.Consistent asked repos := by
  induction moves generalizing p with
  | nil =>
    cases h
    exact hp
  | cons m moves ih =>
    obtain ⟨p', hstep, hrun⟩ := Option.bind_eq_some_iff.mp h
    exact ih (hp.step hstep) hrun

end

/-! ## The end of a run -/

/-- An import that waits has four moves before it, and each of them takes one away. -/
def remaining (p : Pool) : Nat :=
  4 * p.waiting.length + 2 * p.running.length + p.ended.length + p.phase.remaining

theorem remaining_phaseBefore (repos : List Repository) : (phaseBefore repos).remaining = 1 := by
  cases repos <;> rfl

theorem remaining_step (h : p.step m = some q) : p.remaining = q.remaining + 1 := by
  cases m with
  | launch =>
    obtain ⟨repo, rest, hwaiting, hphase, -, rfl⟩ := launch_eq_some h
    simp only [remaining, hwaiting, hphase, List.length_cons, List.length_append,
      List.length_nil, Phase.remaining]
    omega
  | finish n ending =>
    obtain ⟨repo, hrepo, rfl⟩ := finish_eq_some h
    have hlength := (perm_eraseIdx hrepo).length_eq
    rw [List.length_cons] at hlength
    simp only [remaining, List.length_append, List.length_cons, List.length_nil]
    omega
  | record n =>
    obtain ⟨e, he, -, rfl⟩ := record_eq_some h
    have hlength := (perm_eraseIdx he).length_eq
    rw [List.length_cons] at hlength
    simp only [remaining]
    omega
  | resume =>
    obtain ⟨hphase, rfl⟩ := resume_eq_some h
    have hnext := remaining_phaseBefore p.waiting
    simp only [remaining, hphase, hnext]
    rfl
  | close =>
    obtain ⟨hphase, -, -, rfl⟩ := close_eq_some h
    simp only [remaining, hphase, Phase.remaining]

theorem remaining_run {moves : List Move} (h : run moves p = some q) :
    p.remaining = q.remaining + moves.length := by
  induction moves generalizing p with
  | nil =>
    cases h
    rfl
  | cons m moves ih =>
    obtain ⟨p', hstep, hrun⟩ := Option.bind_eq_some_iff.mp h
    rw [remaining_step hstep, ih hrun, List.length_cons]
    omega

theorem exists_launch (hphase : p.phase = .launching) (hwaiting : p.waiting ≠ [])
    (hfree : p.running.length < p.slots) : ∃ q, p.step .launch = some q := by
  obtain ⟨repo, rest, hwaiting⟩ := List.exists_cons_of_ne_nil hwaiting
  simp [step, Pool.launch, hwaiting, hphase, hfree]

theorem exists_finish (ending : JobEnd) (h : p.running ≠ []) :
    ∃ q, p.step (.finish 0 ending) = some q := by
  obtain ⟨repo, rest, hrunning⟩ := List.exists_cons_of_ne_nil h
  have hrepo : p.running[0]? = some repo := by rw [hrunning, List.getElem?_cons_zero]
  exact ⟨_, Option.map_eq_some_iff.mpr ⟨repo, hrepo, rfl⟩⟩

theorem exists_record (hphase : p.phase = .collecting ∨ p.phase = .draining) (h : p.ended ≠ []) :
    ∃ q, p.step (.record 0) = some q := by
  obtain ⟨e, rest, hended⟩ := List.exists_cons_of_ne_nil h
  have he : p.ended[0]? = some e := by rw [hended, List.getElem?_cons_zero]
  refine Option.isSome_iff_exists.mp ?_
  rw [step, Pool.record, if_pos hphase, he]
  rfl

/-- While no slot is free an import runs that can end, and while one runs or has ended the pool
does not close. -/
theorem exists_step (hp : p.Consistent asked repos) (h : p.phase ≠ .closed) :
    ∃ m q, p.step m = some q := by
  cases hphase : p.phase with
  | launching =>
    have hslots : 1 ≤ p.slots := hp.slots ▸ Nat.le_max_right asked 1
    by_cases hfree : p.running.length < p.slots
    · exact ⟨_, exists_launch hphase (hp.launching hphase) hfree⟩
    · have hrunning : p.running ≠ [] := by
        intro hnil
        rw [hnil, List.length_nil] at hfree
        omega
      exact ⟨_, exists_finish (.crashed "") hrunning⟩
  | collecting => exact ⟨.resume, _, if_pos hphase⟩
  | draining =>
    by_cases hrunning : p.running = []
    · by_cases hended : p.ended = []
      · exact ⟨.close, _, if_pos ⟨hphase, hrunning, hended⟩⟩
      · exact ⟨_, exists_record (.inr hphase) hended⟩
    · exact ⟨_, exists_finish (.crashed "") hrunning⟩
  | closed => exact absurd hphase h

/-! ## Runs of a pool -/

/-- A pool that is new, or whose runs have all been closed. -/
inductive Available (asked : Nat) : Pool → Prop where
  | create : Available asked (create asked)
  | again {p q : Pool} {repos : List Repository} {moves : List Move} : Available asked p →
      run moves (p.begin repos) = some q → q.phase = .closed → Available asked q

theorem Consistent.begin (hslots : p.slots = UsageGraph.slots asked) (hrunning : p.running = [])
    (hended : p.ended = []) : (p.begin repos).Consistent asked repos := by
  have hopen := phaseBefore_ne_closed repos
  constructor
  case slots => exact hslots
  case started => rfl
  case accounted =>
    change (p.running ++ p.ended.map Prod.fst ++ []).Perm []
    rw [hrunning, hended]
    rfl
  case bounded =>
    change p.running.length ≤ p.slots
    rw [hrunning]
    exact Nat.zero_le _
  case counts => rfl
  case active => exact (decide_eq_true hopen).symm
  case launching => exact ne_nil_of_phaseBefore
  case draining => exact eq_nil_of_phaseBefore
  case closed => exact fun hclosed => absurd hclosed hopen

/-- Between two runs every slot is free. -/
theorem Available.idle (h : p.Available asked) :
    p.slots = UsageGraph.slots asked ∧ p.running = [] ∧ p.ended = [] := by
  induction h with
  | create => exact ⟨rfl, rfl, rfl⟩
  | again _ hrun hclosed ih =>
    obtain ⟨hslots, hrunning, hended⟩ := ih
    have hq := (Consistent.begin hslots hrunning hended).run hrun
    exact ⟨hq.slots, (hq.closed hclosed).2⟩

theorem Available.begin (h : p.Available asked) : (p.begin repos).Consistent asked repos := by
  obtain ⟨hslots, hrunning, hended⟩ := h.idle
  exact .begin hslots hrunning hended

theorem Available.remaining_begin (h : p.Available asked) :
    (p.begin repos).remaining = 4 * repos.length + 1 := by
  obtain ⟨-, hrunning, hended⟩ := h.idle
  rw [remaining]
  change _ + 2 * p.running.length + p.ended.length + (phaseBefore repos).remaining = _
  rw [hrunning, hended, remaining_phaseBefore]
  rfl

/-! ## The report -/

/-- What holds at any time of a run. -/
structure Balanced (repos : List Repository) (p : Pool) : Prop where
  started : p.started ++ p.waiting = repos
  bounded : p.running.length ≤ p.slots
  total : p.progress.total.toNat = repos.length
  done : p.progress.done.toNat = p.recorded.length
  failed_le : p.progress.failed ≤ p.progress.done
  done_le : p.progress.done ≤ p.progress.total

/-- What holds at the end of it. -/
structure Settled (repos : List Repository) (p : Pool) : Prop where
  started : p.started = repos
  recorded : (p.recorded.map Prod.fst).Perm repos
  released : p.running = []
  inactive : p.progress.active = false
  failed : p.progress.failed.toNat = (p.recorded.map Prod.snd).countP JobEnd.isFailure
  succeeded : p.progress.succeeded.toNat + p.progress.failed.toNat = repos.length
  references : p.progress.references.toNat =
    ((p.recorded.map Prod.snd).map JobEnd.references).sum % UInt64.size
  intervals : p.progress.intervals.toNat =
    ((p.recorded.map Prod.snd).map JobEnd.intervals).sum % UInt64.size

section
variable (hp : p.Consistent asked repos) (hlength : repos.length < UInt64.size)
include hp

theorem Consistent.recorded_le : p.recorded.length ≤ repos.length := by
  have haccounted := hp.accounted.length_eq
  have hstarted := congrArg List.length hp.started
  simp only [List.length_append, List.length_map] at haccounted hstarted
  omega

theorem Consistent.progress_eq : p.progress =
    ⟨p.progress.active, .ofNat repos.length, .ofNat p.recorded.length,
      .ofNat ((p.recorded.map Prod.snd).countP JobEnd.isFailure),
      .ofNat ((p.recorded.map Prod.snd).map JobEnd.references).sum,
      .ofNat ((p.recorded.map Prod.snd).map JobEnd.intervals).sum⟩ := by
  have hcounts := hp.counts
  rw [Progress.recordAll_start, List.length_map] at hcounts
  cases hprogress : p.progress with
  | mk active total done failed references intervals =>
    rw [hprogress] at hcounts
    injection hcounts with _ htotal hdone hfailed hreferences hintervals
    exact Progress.mk.injEq .. ▸ ⟨rfl, htotal, hdone, hfailed, hreferences, hintervals⟩

include hlength

theorem Consistent.failed_toNat :
    p.progress.failed.toNat = (p.recorded.map Prod.snd).countP JobEnd.isFailure := by
  have hle : (p.recorded.map Prod.snd).countP JobEnd.isFailure ≤ p.recorded.length :=
    Nat.le_trans List.countP_le_length (Nat.le_of_eq (List.length_map _))
  have hall := hp.recorded_le
  rw [hp.progress_eq]
  exact UInt64.toNat_ofNat_of_lt' (by omega)

theorem Consistent.balanced : p.Balanced repos := by
  have hle := hp.recorded_le
  have htotal : p.progress.total.toNat = repos.length := by
    rw [hp.progress_eq]
    exact UInt64.toNat_ofNat_of_lt' hlength
  have hdone : p.progress.done.toNat = p.recorded.length := by
    rw [hp.progress_eq]
    exact UInt64.toNat_ofNat_of_lt' (by omega)
  constructor
  case started => exact hp.started
  case bounded => exact hp.bounded
  case total => exact htotal
  case done => exact hdone
  case failed_le =>
    rw [UInt64.le_iff_toNat_le, hp.failed_toNat hlength, hdone]
    exact Nat.le_trans List.countP_le_length (Nat.le_of_eq (List.length_map _))
  case done_le =>
    rw [UInt64.le_iff_toNat_le, hdone, htotal]
    exact hp.recorded_le

theorem Consistent.settled (hclosed : p.phase = .closed) : p.Settled repos := by
  obtain ⟨hwaiting, hrunning, hended⟩ := hp.closed hclosed
  have hbalanced := hp.balanced hlength
  have hstarted : p.started = repos := by
    have h := hp.started
    rwa [hwaiting, List.append_nil] at h
  have hrecorded : (p.recorded.map Prod.fst).Perm repos := by
    have h := hp.accounted
    rwa [hrunning, hended, hstarted] at h
  constructor
  case started => exact hstarted
  case recorded => exact hrecorded
  case released => exact hrunning
  case inactive =>
    rw [hp.active, hclosed]
    rfl
  case failed => exact hp.failed_toNat hlength
  case succeeded =>
    have hall := hrecorded.length_eq
    have hle := UInt64.le_iff_toNat_le.mp hbalanced.failed_le
    rw [List.length_map] at hall
    rw [Progress.succeeded, UInt64.toNat_sub_of_le _ _ hbalanced.failed_le, ← hall,
      ← hbalanced.done]
    omega
  case references =>
    rw [hp.progress_eq]
    exact UInt64.toNat_ofNat'
  case intervals =>
    rw [hp.progress_eq]
    exact UInt64.toNat_ofNat'

end

/-- Every import is started, ends, is recorded and lets the pool resume; then the pool closes. There
are no more repositories than 64 bits can count. -/
theorem run_accounts {before : Pool} {moves : List Move} (hbefore : before.Available asked)
    (hlength : repos.length < UInt64.size) (hrun : run moves (before.begin repos) = some p) :
    p.Balanced repos ∧ moves.length ≤ 4 * repos.length + 1 ∧
      (p.phase ≠ .closed → ∃ m q, p.step m = some q) ∧ (p.phase = .closed → p.Settled repos) := by
  have hp : p.Consistent asked repos := hbefore.begin.run hrun
  have hmoves := remaining_run hrun
  rw [hbefore.remaining_begin] at hmoves
  refine ⟨hp.balanced hlength, ?_, exists_step hp, hp.settled hlength⟩
  omega

def earlier : List Move := [.launch, .resume, .finish 0 (.crashed ""), .record 0, .close]

/-- Two slots that have been used before. -/
def reused : Pool := follow earlier ((create 2).begin [.ofId ⟨"ann", "old"⟩])

def three : List Repository := [.ofId ⟨"ann", "a"⟩, .ofId ⟨"ann", "b"⟩, .ofId ⟨"bob", "c"⟩]

/-- The second import fails while the first one runs, and is recorded last. -/
def overlap : List Move :=
  [.launch, .resume, .launch, .finish 1 (.failed .json),
    .finish 0 (.finished ⟨5, 18446744073709551615, false⟩), .record 1, .resume, .launch,
    .finish 0 (.finished ⟨2, 4, false⟩), .resume, .record 1, .record 0, .close]

theorem run_accounts_overlap :
    (follow overlap (reused.begin three)).Settled three ∧
      (follow overlap (reused.begin three)).progress = ⟨false, 3, 3, 1, 7, 3⟩ := by
  have hearlier : run earlier ((create 2).begin [.ofId ⟨"ann", "old"⟩]) = some reused := by
    decide +kernel
  have hreused : reused.Available 2 := .again .create hearlier (by decide +kernel)
  have hrun : run overlap (reused.begin three) = some (follow overlap (reused.begin three)) := by
    decide +kernel
  obtain ⟨-, -, -, hsettled⟩ := run_accounts hreused (by decide) hrun
  exact ⟨hsettled (by decide +kernel), by decide +kernel⟩

/-! ## Imports one after another -/

theorem run_append (ms ns : List Move) (p : Pool) :
    run (ms ++ ns) p = (run ms p).bind (run ns) := by
  induction ms generalizing p with
  | nil => rfl
  | cons m ms ih =>
    rw [List.cons_append, run, run, Option.bind_assoc]
    exact congrArg _ (funext ih)

theorem follow_eq {moves : List Move} (h : run moves p = some q) : p.follow moves = q := by
  rw [follow, h]
  rfl

/-- No import runs, and every one that was started is recorded. -/
structure Between (p : Pool) : Prop where
  phase : p.phase = phaseBefore p.waiting
  running : p.running = []
  ended : p.ended = []
  slots : 0 < p.slots

theorem Between.begin {asked : Nat} (h : p.Available asked) (repos : List Repository) :
    (p.begin repos).Between := by
  obtain ⟨hslots, hrunning, hended⟩ := h.idle
  exact ⟨rfl, hrunning, hended, hslots.symm ▸ Nat.le_max_right asked 1⟩

/-- From its start to its record an import is by itself. -/
theorem Between.run_one {repo : Repository} {rest : List Repository} (hp : p.Between)
    (hwaiting : p.waiting = repo :: rest) (ending : JobEnd) :
    ∃ q, run [.launch, .finish 0 ending, .record 0, .resume] p = some q ∧ q.Between ∧
      q.waiting = rest := by
  obtain ⟨slots, phase, waiting, running, ended, started, recorded, progress⟩ := p
  obtain ⟨hphase, hrunning, hended, hslots⟩ := hp
  dsimp only at hphase hrunning hended hslots hwaiting
  subst hrunning hended hwaiting
  refine ⟨⟨slots, phaseBefore rest, rest, [], [], started ++ [repo], recorded ++ [(repo, ending)],
    progress.record ending⟩, ?_, ⟨rfl, rfl, rfl, hslots⟩, rfl⟩
  simp [run, step, launch, finish, record, resume, hphase, hslots, phaseBefore]

variable {σ : Type} {job : Repository → Task σ JobEnd}

theorem run_of_runEach {s : σ} (hp : p.Between) (hwaiting : p.waiting = repos)
    (h : (runEach job repos p s).result = .ok q) :
    q.Between ∧ q.waiting = [] ∧ ∃ moves, run moves p = some q := by
  induction repos generalizing p s with
  | nil =>
    cases h
    exact ⟨hp, hwaiting, [], rfl⟩
  | cons repo rest ih =>
    obtain ⟨ending, -, h⟩ := Task.bind_eq_ok _ h
    obtain ⟨_, -, h⟩ := Task.bind_eq_ok _ h
    obtain ⟨p', hone, hp', hrest⟩ := hp.run_one hwaiting ending
    rw [follow_eq hone] at h
    obtain ⟨hq, hnil, moves, hmoves⟩ := ih hp' hrest h
    refine ⟨hq, hnil, [.launch, .finish 0 ending, .record 0, .resume] ++ moves, ?_⟩
    rw [run_append, hone]
    exact hmoves

/-- Imports that are never side by side are a run of a pool that is closed at the end. -/
theorem run_of_runJobs {s : σ} {progress : Progress}
    (h : (runJobs job repos s).result = .ok progress) :
    ∃ moves q, run moves ((create 1).begin repos) = some q ∧ q.phase = .closed ∧
      q.progress = progress := by
  obtain ⟨p, hp, h⟩ := Task.bind_eq_ok _ h
  obtain ⟨_, -, h⟩ := Task.bind_eq_ok _ h
  have hcreate : Available 1 (create 1) := .create
  obtain ⟨hbetween, hwaiting, moves, hmoves⟩ := run_of_runEach (.begin hcreate repos) rfl hp
  have hphase : p.phase = .draining := hbetween.phase.trans (congrArg phaseBefore hwaiting)
  have hclose :
      run [.close] p = some { p with phase := .closed, progress := p.progress.finish } := by
    simp [run, step, close, hphase, hbetween.running, hbetween.ended]
  rw [follow_eq hclose] at h
  refine ⟨moves ++ [.close], _, ?_, ?_, Except.ok.inj h⟩
  · rw [run_append, hmoves]
    exact hclose
  · rfl

end Pool
end UsageGraph
