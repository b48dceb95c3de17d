import UsageGraph.Proofs.Lists
import UsageGraph.Proofs.Store.Queue
import UsageGraph.Proofs.Text.ByteOrder

/-! # What is known of pending repositories

Of each field, the last value that an upsert tells counts, or else the one with which the repository
was registered. Numbers of stars are kept in 64 bits with a sign. So from `2 ^ 63` on a number turns
negative, is shown as zero, and comes behind all smaller ones in the queue.

* `Store.Known`: a repository as the operations of a session tell about it.
* `Store.row_of_known`: the row of a repository describes what is known of it.
* `Repository.Before`: by stars and then by full name, for any way to count stars.
* `Store.pending_run`: the queue holds what is known of its repositories, in this order.
* `Store.pending_overflowing`: a repository with more stars than all others, which comes last.
-/

namespace UsageGraph
set_option autoImplicit false

/-! ## What is told -/

namespace Store.Operation

/-- What an upsert tells about a repository. -/
def told (repo : String) : Operation → Option Repository
  | upsert r _ => if r.id.fullName = repo then some r else none
  | enqueue _ | replaceReferences _ _ | replaceIntervals _ _ | markImported _ => none

def Adds (op : Operation) (r : Repository) : Prop := op = enqueue r ∨ ∃ l, op = upsert r l

theorem registers_iff {op : Operation} {repo : String} :
    op.Registers repo ↔ ∃ r, op.Adds r ∧ r.id.fullName = repo := by
  cases op <;> simp [Registers, Adds]

end Store.Operation

namespace Repository
open Store

/-- The last value that is told of a repository, or else the one that was told first. -/
def lastTold {α : Type} (field : Repository → Option α) (first : Repository)
    (later : List Operation) : Option α :=
  ((later.filterMap (Operation.told first.id.fullName)).filterMap field).getLast?.or (field first)

/-- A repository with what is told of it later. -/
def updated (first : Repository) (later : List Operation) : Repository :=
  { first with
    stars := lastTold stars first later
    lastUpdated := lastTold lastUpdated first later
    license := lastTold license first later }

section
variable (first : Repository) (later : List Operation) (op : Operation)

@[simp] theorem id_updated : (first.updated later).id = first.id := rfl

theorem lastTold_concat {α : Type} (field : Repository → Option α) :
    lastTold field first (later ++ [op]) =
      ((op.told first.id.fullName).bind field).or (lastTold field first later) := by
  rw [lastTold, List.filterMap_append, List.filterMap_append, List.getLast?_append, lastTold,
    Option.or_assoc]
  cases htold : op.told first.id.fullName with
  | none => simp [htold]
  | some r => cases hr : field r <;> simp [htold, hr]

end
end Repository

namespace Store

/-- A repository as a session has told about it since it was registered. -/
def Known (ops : List Operation) (r : Repository) : Prop :=
  ∃ earlier op first later, ops = earlier ++ op :: later ∧
    ¬Registered earlier first.id.fullName ∧ op.Adds first ∧ r = first.updated later

section
variable {ops : List Operation} {repo : String}

theorem exists_known (h : Registered ops repo) : ∃ r, Known ops r ∧ r.id.fullName = repo := by
  have hfirst : ∃ earlier op later, ops = earlier ++ op :: later ∧ ¬Registered earlier repo ∧
      op.Registers repo := by
    induction ops using List.reverseRecOn with
    | nil => simp [Registered] at h
    | append_singleton ops op ih =>
      by_cases hops : Registered ops repo
      · obtain ⟨earlier, first, later, rfl, hfirst⟩ := ih hops
        exact ⟨earlier, first, later ++ [op], by rw [List.append_assoc, List.cons_append], hfirst⟩
      · exact ⟨ops, op, [], rfl, hops, (registered_concat.mp h).resolve_left hops⟩
  obtain ⟨earlier, op, later, rfl, hearlier, hop⟩ := hfirst
  obtain ⟨first, hadds, rfl⟩ := Operation.registers_iff.mp hop
  exact ⟨first.updated later, ⟨earlier, op, first, later, rfl, hearlier, hadds, rfl⟩, rfl⟩

/-- There is one first registration of a repository. -/
theorem Known.unique {r r' : Repository} (h : Known ops r) (h' : Known ops r')
    (hname : r.id.fullName = r'.id.fullName) : r = r' := by
  obtain ⟨earlier, op, first, later, rfl, hnew, hadds, rfl⟩ := h
  obtain ⟨earlier', op', first', later', hops, hnew', hadds', rfl⟩ := h'
  rw [Repository.id_updated, Repository.id_updated] at hname
  have hregisters : op.Registers first.id.fullName := Operation.registers_iff.mpr ⟨_, hadds, rfl⟩
  have hregisters' : op'.Registers first'.id.fullName :=
    Operation.registers_iff.mpr ⟨_, hadds', rfl⟩
  have hboth : earlier = earlier' := by
    rcases List.append_eq_append_iff.mp hops with ⟨between, rfl, htail⟩ | ⟨between, rfl, htail⟩
    · cases between with
      | nil => rw [List.append_nil]
      | cons x between =>
        cases (List.cons.inj htail).1
        exact absurd ⟨op, by simp, hname ▸ hregisters⟩ hnew'
    · cases between with
      | nil => rw [List.append_nil]
      | cons x between =>
        cases (List.cons.inj htail).1
        exact absurd ⟨op', by simp, hname ▸ hregisters'⟩ hnew
  subst hboth
  obtain ⟨rfl, rfl⟩ := List.cons.inj (List.append_cancel_left hops)
  rcases hadds with rfl | ⟨l, rfl⟩ <;> rcases hadds' with h | ⟨l', h⟩ <;> cases h <;> rfl

end
end Store

/-! ## Rows -/

/-- The row says what is known of the repository. Its number of stars may have wrapped around. -/
structure RepositoryRow.Describes (row : RepositoryRow) (r : Repository) : Prop where
  owner : row.owner = r.owner
  name : row.name = r.name
  stars : row.stars = r.stars.map Int64.ofNat
  lastUpdated : row.lastUpdated = r.lastUpdated
  license : row.license = r.license

namespace Store
open Repository

section
variable {ops : List Operation} {first : Repository} {later : List Operation} {op : Operation}

theorem describes_row {row : RepositoryRow} (h : row.Describes (first.updated later)) :
    ∃ row', op.row first.id.fullName (some row) = some row' ∧
      row'.Describes (first.updated (later ++ [op])) := by
  -- All that upserts do not tell stays.
  have hsilent : op.told first.id.fullName = none →
      first.updated (later ++ [op]) = first.updated later := by
    intro htold
    simp only [updated, lastTold_concat, htold, Option.bind_none, Option.none_or]
  cases op with
  | enqueue r =>
    rw [hsilent rfl]
    refine ⟨row, ?_, h⟩
    rw [Operation.row, Option.getD_some, ite_self]
  | upsert r l =>
    by_cases hid : r.id.fullName = first.id.fullName
    · have htold : (Operation.upsert r l).told first.id.fullName = some r := if_pos hid
      refine ⟨RepositoryRow.refresh row (repositoryRow r l), if_pos hid, h.owner, h.name, ?_, ?_,
        ?_⟩
      · simp only [updated, lastTold_concat, htold, Option.bind_some, Option.map_or]
        exact Option.orElse_eq_or.trans (congrArg (Option.or _) h.stars)
      · simp only [updated, lastTold_concat, htold, Option.bind_some]
        exact Option.orElse_eq_or.trans (congrArg (Option.or _) h.lastUpdated)
      · simp only [updated, lastTold_concat, htold, Option.bind_some]
        exact Option.orElse_eq_or.trans (congrArg (Option.or _) h.license)
    · rw [hsilent (if_neg hid)]
      exact ⟨row, if_neg hid, h⟩
  | replaceReferences other rs =>
    rw [hsilent rfl]
    exact ⟨row, rfl, h⟩
  | replaceIntervals other is =>
    rw [hsilent rfl]
    exact ⟨row, rfl, h⟩
  | markImported marked =>
    rw [hsilent rfl, Operation.row]
    split
    · exact ⟨_, rfl, h.owner, h.name, h.stars, h.lastUpdated, h.license⟩
    · exact ⟨row, rfl, h⟩

/-- The row of a repository describes what is known of it. -/
theorem row_of_known {r : Repository} (h : Known ops r) :
    ∃ row, (run ops).repositories.get? r.id.fullName = some row ∧ row.Describes r := by
  obtain ⟨earlier, op, first, later, rfl, hnew, hadds, rfl⟩ := h
  rw [id_updated]
  induction later using List.reverseRecOn with
  | nil =>
    have hnone : (run earlier).repositories.get? first.id.fullName = none := by
      have hunknown := (stage_eq_unknown _ _).mp ((stage_run earlier _).1.mpr hnew)
      rwa [Table.contains, Bool.not_eq_true, Option.isSome_eq_false_iff,
        Option.isNone_iff_eq_none] at hunknown
    rw [run_concat, get?_apply, hnone]
    rcases hadds with rfl | ⟨l, rfl⟩
    · exact ⟨repositoryRow first ⟨none, none⟩, if_pos rfl, rfl, rfl, rfl, rfl, rfl⟩
    · exact ⟨repositoryRow first l, if_pos rfl, rfl, rfl, rfl, rfl, rfl⟩
  | append_singleton later last ih =>
    obtain ⟨row, hrow, hdescribes⟩ := ih
    rw [← List.cons_append, ← List.append_assoc, run_concat, get?_apply, hrow]
    exact describes_row hdescribes

theorem known_of_row {repo : String} {row : RepositoryRow}
    (h : (run ops).repositories.get? repo = some row) :
    ∃ r, Known ops r ∧ r.id.fullName = repo ∧ row.Describes r := by
  have hregistered : Registered ops repo := by
    rw [registered_iff, Ne, stage_eq_unknown, not_not]
    exact Table.contains_iff.mpr ⟨row, h⟩
  obtain ⟨r, hknown, rfl⟩ := exists_known hregistered
  obtain ⟨row', hrow', hdescribes⟩ := row_of_known hknown
  rw [h] at hrow'
  cases hrow'
  exact ⟨r, hknown, rfl, hdescribes⟩

end
end Store

/-! ## The order of the queue -/

namespace Repository

/-- The first number of stars that does not fit into 64 bits with a sign. -/
def starLimit : Nat := 0x8000000000000000

/-- What a number of stars is kept as. -/
def kept (stars : Nat) : Int := (stars : Int).bmod Int64.size

theorem toInt_ofNat (n : Nat) : (Int64.ofNat n).toInt = kept n := Int64.toInt_ofNat'

theorem kept_of_lt {n : Nat} (h : n < starLimit) : kept n = n := by
  unfold starLimit at h
  have hsize : Int64.size = 0x10000000000000000 := rfl
  exact Int.bmod_eq_of_le (by omega) (by omega)

/-- A repository as the queue shows it. -/
def shown (r : Repository) : Repository := { r with stars := r.stars.map fun n => (kept n).toNat }

theorem shown_of_lt {r : Repository} (h : ∀ n ∈ r.stars, n < starLimit) : r.shown = r := by
  have hstars : (r.stars.map fun n => (kept n).toNat) = r.stars := by
    cases hn : r.stars with
    | none => rfl
    | some n => rw [Option.map_some, kept_of_lt (h n hn), Int.toNat_natCast]
  rw [shown, hstars]

/-- The one with more stars comes first, and those without a number come last. Where they have the
same, the one whose full name has the smaller bytes comes first. -/
def Before (count : Nat → Int) (a b : Repository) : Prop :=
  match a.stars, b.stars with
  | some m, some n => count n < count m ∨ count n = count m ∧
      Text.encode a.id.fullName < Text.encode b.id.fullName
  | some _, none => True
  | none, some _ => False
  | none, none => Text.encode a.id.fullName < Text.encode b.id.fullName

theorem before_congr {count count' : Nat → Int} {a b : Repository}
    (ha : ∀ n ∈ a.stars, count n = count' n) (hb : ∀ n ∈ b.stars, count n = count' n) :
    a.Before count b ↔ a.Before count' b := by
  rw [Before, Before]
  split
  · next m n hm hn => rw [ha m hm, hb n hn]
  all_goals rfl

end Repository

namespace Store
open Repository

theorem compareStars_eq : compareStars = fun a b =>
    Ord.compare (b.map Int64.toInt) (a.map Int64.toInt) := by
  funext a b
  cases a <;> cases b <;> rfl

theorem comparePending_eq : comparePending =
    compareLex (fun a b => compareOn (fun p => p.2.stars.map Int64.toInt) b a)
      (compareOn Prod.fst) := by
  funext a b
  simp [comparePending, lexicographic, compareLex, compareOn, compareStars_eq]

instance : Std.TransCmp fun a b : String × RepositoryRow =>
    compareOn (fun p => p.2.stars.map Int64.toInt) b a := Std.TransCmp.opposite

instance : Std.TransCmp comparePending := comparePending_eq ▸ inferInstance

theorem fst_eq_of_comparePending {a b : String × RepositoryRow}
    (h : comparePending a b = .eq) : a.1 = b.1 := by
  simp [comparePending, lexicographic, Ordering.then_eq_eq] at h
  exact h.2

theorem before_of_comparePending {p q : String × RepositoryRow} {a b : Repository}
    (hp : p.1 = a.id.fullName ∧ p.2.Describes a) (hq : q.1 = b.id.fullName ∧ q.2.Describes b)
    (h : comparePending p q = .lt) : a.Before kept b := by
  have hname : Ord.compare p.1 q.1 = .lt ↔
      Text.encode a.id.fullName < Text.encode b.id.fullName := by
    rw [hp.1, hq.1, Text.encode_lt_iff]
    exact compareOfLessAndEq_eq_lt
  simp only [comparePending, lexicographic, List.foldr_cons, List.foldr_nil, Ordering.then_eq,
    Ordering.then_eq_lt, hp.2.stars, hq.2.stars, hname] at h
  rw [Before]
  revert h
  cases a.stars with
  | none => cases b.stars <;> simp [compareStars]
  | some m =>
    cases b.stars with
    | none => simp
    | some n =>
      simp only [Option.map_some, compareStars, toInt_ofNat, Int.compare_eq_lt,
        Std.compare_eq_iff_eq]
      exact id

/-! ## The queue -/

/-- What is known of the repositories of the queue, in its order. -/
structure Awaits (ops : List Operation) (known : List Repository) : Prop where
  mem : ∀ r, r ∈ known ↔ Known ops r ∧ ¬Marked ops r.id.fullName
  nodup : (known.map fun r => r.id.fullName).Nodup
  ordered : known.Pairwise (Before kept)

theorem toRepository_of_describes {row : RepositoryRow} {r : Repository} (h : row.Describes r) :
    RepositoryRow.toRepository row = r.shown := by
  rw [RepositoryRow.toRepository, shown, h.owner, h.name, h.stars, h.lastUpdated, h.license,
    Option.map_map]
  simp only [Function.comp_def, toInt_ofNat]

theorem imported_iff_marked {ops : List Operation} {repo : String} {row : RepositoryRow}
    (h : (run ops).repositories.get? repo = some row) :
    row.imported = true ↔ Marked ops repo := by
  rw [← (stage_run ops repo).2, stage, h, Stage.ofRow]
  cases row.imported <;> simp

/-- The rows of the queue, in its order. -/
def pendingRows (s : Store) : List (String × RepositoryRow) :=
  (s.repositories.entries.filter fun p => !p.2.imported).mergeSort fun a b =>
    (comparePending a b).isLE

section
variable (s : Store)

theorem pending_eq : s.pending = s.pendingRows.map fun p => RepositoryRow.toRepository p.2 := rfl

theorem mem_pendingRows {s : Store} {p : String × RepositoryRow} : p ∈ s.pendingRows ↔
    s.repositories.get? p.1 = some p.2 ∧ p.2.imported = false := by
  rw [pendingRows, List.mem_mergeSort, List.mem_filter, Bool.not_eq_true', ← Table.mem_entries]

theorem nodup_names_pending :
    ((s.repositories.entries.filter fun p => !p.2.imported).map Prod.fst).Nodup :=
  (Table.nodup_keys s.repositories).sublist (List.filter_sublist.map _)

theorem nodup_pendingRows : (s.pendingRows.map Prod.fst).Nodup :=
  ((List.mergeSort_perm _ _).map _).nodup_iff.mpr (nodup_names_pending s)

theorem sorted_pendingRows : s.pendingRows.Pairwise fun p q => comparePending p q = .lt :=
  @pairwise_mergeSort_lt _ _ comparePending _ Prod.fst fst_eq_of_comparePending _
    (nodup_names_pending s)

end

theorem exists_awaits (ops : List Operation) :
    ∃ known, (run ops).pending = known.map shown ∧ Awaits ops known := by
  have hknown : ∀ p ∈ (run ops).pendingRows,
      ∃ r, Known ops r ∧ r.id.fullName = p.1 ∧ p.2.Describes r :=
    fun p hp => known_of_row (mem_pendingRows.mp hp).1
  have : Nonempty Repository := ⟨.ofId ⟨"", ""⟩⟩
  choose! f hf using hknown
  refine ⟨(run ops).pendingRows.map f, ?_, fun r => ?_, ?_, ?_⟩
  · rw [pending_eq, List.map_map]
    exact List.map_congr_left fun p hp => toRepository_of_describes (hf p hp).2.2
  · rw [List.mem_map]
    constructor
    · rintro ⟨p, hp, rfl⟩
      obtain ⟨hrow, himported⟩ := mem_pendingRows.mp hp
      obtain ⟨hr, hname, -⟩ := hf p hp
      rw [hname, ← imported_iff_marked hrow, himported]
      exact ⟨hr, Bool.false_ne_true⟩
    · rintro ⟨hr, hmarked⟩
      obtain ⟨row, hrow, -⟩ := row_of_known hr
      have himported : row.imported = false := by
        rwa [← imported_iff_marked hrow, Bool.not_eq_true] at hmarked
      have hp : (r.id.fullName, row) ∈ (run ops).pendingRows :=
        mem_pendingRows.mpr ⟨hrow, himported⟩
      obtain ⟨hr', hname, -⟩ := hf _ hp
      exact ⟨_, hp, hr'.unique hr hname⟩
  · rw [List.map_map]
    exact (List.map_congr_left fun p hp => (hf p hp).2.1) ▸ nodup_pendingRows _
  · refine List.pairwise_map.mpr ((sorted_pendingRows _).imp_of_mem fun {p q} hp hq h => ?_)
    obtain ⟨-, hpname, hprow⟩ := hf p hp
    obtain ⟨-, hqname, hqrow⟩ := hf q hq
    exact before_of_comparePending ⟨hpname.symm, hprow⟩ ⟨hqname.symm, hqrow⟩ h

/-- The queue shows what is known of its repositories, in the order of the stars as they are kept.
If none has too many stars, it shows them as they were given, and in their order. -/
theorem pending_run (ops : List Operation) :
    ∃ known, (run ops).pending = known.map shown ∧ Awaits ops known ∧
      ((∀ r ∈ known, ∀ n ∈ r.stars, n < starLimit) →
        (run ops).pending = known ∧ known.Pairwise (Before Int.ofNat)) := by
  obtain ⟨known, hpending, hawaits⟩ := exists_awaits ops
  refine ⟨known, hpending, hawaits, fun hfew => ⟨?_, ?_⟩⟩
  · rw [hpending, List.map_congr_left fun r hr => shown_of_lt (hfew r hr), List.map_id']
  · refine hawaits.ordered.imp_of_mem fun {a b} ha hb h => ?_
    refine (before_congr (fun n hn => ?_) fun n hn => ?_).mp h
    · exact kept_of_lt (hfew a ha n hn)
    · exact kept_of_lt (hfew b hb n hn)

/-- To add a repository again tells nothing, and an upsert keeps what it leaves open. -/
example : (run [.enqueue ⟨"c", "d", some 5, none, some "MIT"⟩, .enqueue (.ofId ⟨"e", "f"⟩),
    .upsert ⟨"c", "d", none, some "2016", none⟩ ⟨none, none⟩,
    .enqueue ⟨"c", "d", some 9, none, none⟩, .enqueue ⟨"a", "b", some 7, none, none⟩]).pending =
      [⟨"a", "b", some 7, none, none⟩, ⟨"c", "d", some 5, some "2016", some "MIT"⟩,
        .ofId ⟨"e", "f"⟩] := by
  rw [pending, List.mergeSort_of_pairwise (by decide +kernel)]
  decide +kernel

/-- The first repository has more stars than the store can keep. -/
def overflowing : List Operation :=
  [.enqueue ⟨"c", "d", some starLimit, none, none⟩, .enqueue ⟨"a", "b", some 1, none, none⟩]

/-- It is shown with zero stars and behind the other. -/
theorem pending_overflowing :
    Known overflowing ⟨"c", "d", some starLimit, none, none⟩ ∧ ¬Marked overflowing "c/d" ∧
      (run overflowing).pending =
        [⟨"a", "b", some 1, none, none⟩, ⟨"c", "d", some 0, none, none⟩] := by
  refine ⟨⟨[], _, _, _, rfl, by simp [Registered], .inl rfl, rfl⟩, ?_, ?_⟩
  · rw [← (stage_run overflowing "c/d").2]
    decide +kernel
  · rw [pending, List.mergeSort_of_pairwise (by decide +kernel)]
    decide +kernel

end Store
end UsageGraph
