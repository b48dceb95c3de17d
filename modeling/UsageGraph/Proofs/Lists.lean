import Mathlib.Data.List.Forall2

/-! # Lists

* `mapM_eq_some`, `exists_left_of_forall₂`, `forall₂_filterMap`: what is read off the elements one by
  one.
* `idxOf_filter_lt_iff`: what a filter keeps stays in order.
* `filter_mergeSort`: what a sort leaves of the elements that are in order already.
* `pairwise_mergeSort_lt`: a sort of elements of which no two are alike is strict.
-/

namespace UsageGraph
set_option autoImplicit false

/-! ## Reading elements -/

section
variable {α β : Type} {f : α → Option β}

theorem mapM_eq_some {xs : List α} {ys : List β} :
    xs.mapM f = some ys ↔ List.Forall₂ (fun x y => f x = some y) xs ys := by
  induction xs generalizing ys with
  | nil =>
    rw [List.mapM_nil, List.forall₂_nil_left_iff]
    exact ⟨fun h => (Option.some.inj h).symm, fun h => congrArg some h.symm⟩
  | cons x xs ih =>
    rw [List.mapM_cons, List.forall₂_cons_left_iff]
    simp only [Option.bind_eq_bind, Option.bind_eq_some_iff, Option.pure_def, Option.some.injEq, ih]
    constructor
    · rintro ⟨y, hy, zs, hzs, rfl⟩
      exact ⟨y, zs, hy, hzs, rfl⟩
    · rintro ⟨y, zs, hy, hzs, rfl⟩
      exact ⟨y, hy, zs, hzs, rfl⟩

theorem exists_left_of_forall₂ {R : α → β → Prop} {xs : List α} {ys : List β}
    (h : List.Forall₂ R xs ys) {y : β} (hy : y ∈ ys) : ∃ x ∈ xs, R x y := by
  induction h with
  | nil => cases hy
  | cons hR _ ih =>
    rcases List.mem_cons.mp hy with rfl | hy
    · exact ⟨_, List.mem_cons_self, hR⟩
    · obtain ⟨x, hx, hR⟩ := ih hy
      exact ⟨x, List.mem_cons_of_mem _ hx, hR⟩

theorem forall₂_filterMap (xs : List α) : List.Forall₂ (fun x y => f x = some y)
    (xs.filter fun x => (f x).isSome) (xs.filterMap f) := by
  induction xs with
  | nil => exact .nil
  | cons x xs ih =>
    cases hx : f x with
    | none => rwa [List.filter_cons_of_neg (by simp [hx]), List.filterMap_cons_none hx]
    | some y =>
      rw [List.filter_cons_of_pos (by simp [hx]), List.filterMap_cons_some hx]
      exact .cons hx ih

end

/-! ## Order -/

section
variable {α : Type} [DecidableEq α]

theorem idxOf_filter_lt_iff {keep : α → Bool} {a b : α} (ha : keep a = true)
    (hb : keep b = true) {xs : List α} :
    (xs.filter keep).idxOf a < (xs.filter keep).idxOf b ↔ xs.idxOf a < xs.idxOf b := by
  induction xs with
  | nil => simp
  | cons x xs ih =>
    cases hx : keep x with
    | false =>
      have hxa : x ≠ a := by rintro rfl; rw [ha] at hx; cases hx
      have hxb : x ≠ b := by rintro rfl; rw [hb] at hx; cases hx
      rw [List.filter_cons_of_neg (by simp [hx]), ih, List.idxOf_cons_ne xs hxa,
        List.idxOf_cons_ne xs hxb, Nat.succ_lt_succ_iff]
    | true =>
      rw [List.filter_cons_of_pos hx]
      by_cases hxa : x = a
      · subst hxa
        by_cases hxb : x = b
        · subst hxb
          simp
        · simp [List.idxOf_cons_ne _ hxb]
      · by_cases hxb : x = b
        · subst hxb
          simp
        · rw [List.idxOf_cons_ne _ hxa, List.idxOf_cons_ne _ hxb, List.idxOf_cons_ne _ hxa,
            List.idxOf_cons_ne _ hxb, Nat.succ_lt_succ_iff, Nat.succ_lt_succ_iff, ih]

end

/-! ## Sorting -/

variable {α : Type} {le : α → α → Bool}

/-- A stable sort moves no two elements that are in order. -/
theorem filter_mergeSort (trans : ∀ a b c, le a b → le b c → le a c)
    (total : ∀ a b, le a b || le b a) (keep : α → Bool) {l : List α}
    (h : (l.filter keep).Pairwise fun a b => le a b) :
    (l.mergeSort le).filter keep = l.filter keep := by
  have hsub : (l.filter keep).Sublist (l.mergeSort le) :=
    List.sublist_mergeSort trans total h List.filter_sublist
  have hfilter : (l.filter keep).Sublist ((l.mergeSort le).filter keep) := by
    simpa using hsub.filter keep
  have hlength : ((l.mergeSort le).filter keep).length = (l.filter keep).length :=
    ((List.mergeSort_perm l le).filter keep).length_eq
  exact (hfilter.eq_of_length hlength.symm).symm

variable {β : Type} {cmp : α → α → Ordering} [Std.TransCmp cmp]

theorem pairwise_mergeSort_isLE (l : List α) :
    (l.mergeSort fun a b => (cmp a b).isLE).Pairwise fun a b => (cmp a b).isLE := by
  refine List.pairwise_mergeSort (fun a b c => Std.TransCmp.isLE_trans) (fun a b => ?_) l
  have hswap : cmp b a = (cmp a b).swap := Std.OrientedCmp.eq_swap
  rw [hswap]
  cases cmp a b <;> rfl

theorem pairwise_mergeSort_lt {key : α → β} (hkey : ∀ {a b}, cmp a b = .eq → key a = key b)
    {l : List α} (h : (l.map key).Nodup) :
    (l.mergeSort fun a b => (cmp a b).isLE).Pairwise fun a b => cmp a b = .lt := by
  have hne : (l.mergeSort fun a b => (cmp a b).isLE).Pairwise fun a b => key a ≠ key b :=
    List.pairwise_map.mp (((List.mergeSort_perm l _).map key).nodup_iff.mpr h)
  refine ((pairwise_mergeSort_isLE l).and hne).imp fun {a b} hab => ?_
  cases hcmp : cmp a b with
  | lt => rfl
  | eq => exact absurd (hkey hcmp) hab.2
  | gt =>
    rw [hcmp] at hab
    cases hab.1

end UsageGraph
