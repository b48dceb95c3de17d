import UsageGraph.Version.Range
import Mathlib.Data.List.Lex
import Mathlib.Data.Prod.Lex
import Mathlib.Data.String.Basic
import Mathlib.Data.Sum.Order
import Mathlib.Order.WithBot

/-! # The order of versions

* `Version.rank`: the place of a version in a lexicographic order of its numbers and labels.
* `Version.rank_injective`: two versions at one place are the same.
* `Version.compare_compares`: versions are compared by their places.
* `VersionRange.Holds`: a version lies between the bounds of a range.
-/

namespace UsageGraph
set_option autoImplicit false

/-! ## Places -/

/-- Numbers come before words, and equal numbers in the order of the counts of their digits. -/
def Label.rank : Label → (ℕ ×ₗ ℕ) ⊕ₗ String
  | number value width => Sum.inlₗ (toLex (value, width))
  | word text => Sum.inrₗ text

/-- Labels in front of a release; the release itself comes after all of them. -/
def preRank (labels : List Label) : WithTop (List ((ℕ ×ₗ ℕ) ⊕ₗ String)) :=
  if labels = [] then ⊤ else (labels.map Label.rank : List ((ℕ ×ₗ ℕ) ⊕ₗ String))

/-- The numbers count first, then the labels in front of the release, then those of the build. -/
def Version.rank (v : Version) : ℕ ×ₗ ℕ ×ₗ ℕ ×ₗ WithTop (List ((ℕ ×ₗ ℕ) ⊕ₗ String)) ×ₗ
    List ((ℕ ×ₗ ℕ) ⊕ₗ String) :=
  toLex (v.major, toLex (v.minor, toLex (v.patch, toLex (preRank v.pre, v.build.map Label.rank))))

theorem Label.rank_injective : Function.Injective Label.rank := by
  intro l m h
  cases l <;> cases m <;> cases h <;> rfl

theorem preRank_injective : Function.Injective preRank := by
  intro ls ms h
  rw [preRank, preRank] at h
  split at h <;> split at h
  · simp_all
  · cases h
  · cases h
  · exact Label.rank_injective.list_map (WithTop.coe_injective h)

theorem Version.rank_injective : Function.Injective Version.rank := by
  intro v w h
  obtain ⟨major, minor, patch, pre, build⟩ := v
  obtain ⟨major', minor', patch', pre', build'⟩ := w
  simp only [rank, EmbeddingLike.apply_eq_iff_eq, Prod.mk.injEq] at h
  obtain ⟨rfl, rfl, rfl, hpre, hbuild⟩ := h
  rw [preRank_injective hpre, Label.rank_injective.list_map hbuild]

/-! ## Comparisons -/

section
variable {α β : Type} [LinearOrder α] [LinearOrder β] {o o' : Ordering}

theorem compares_compare (a b : α) : (compare a b).Compares a b := (compare_iff a b).mp rfl

theorem compares_then {a a' : α} {b b' : β} (h : o.Compares a a') (h' : o'.Compares b b') :
    (o.then o').Compares (toLex (a, b)) (toLex (a', b')) := by
  cases o with
  | lt => exact Prod.Lex.toLex_lt_toLex.mpr (.inl h)
  | gt => exact Prod.Lex.toLex_lt_toLex.mpr (.inl h)
  | eq =>
    cases h
    cases o' with
    | lt => exact Prod.Lex.toLex_lt_toLex.mpr (.inr ⟨rfl, h'⟩)
    | gt => exact Prod.Lex.toLex_lt_toLex.mpr (.inr ⟨rfl, h'⟩)
    | eq =>
      cases h'
      rfl

theorem compares_cons {a b : α} {as bs : List α} (h : o.Compares a b)
    (h' : o'.Compares as bs) : (o.then o').Compares (a :: as) (b :: bs) := by
  cases o with
  | lt => exact List.cons_lt_cons_iff.mpr (.inl h)
  | gt => exact List.cons_lt_cons_iff.mpr (.inl h)
  | eq =>
    cases h
    cases o' with
    | lt => exact List.cons_lt_cons_iff.mpr (.inr ⟨rfl, h'⟩)
    | gt => exact List.cons_lt_cons_iff.mpr (.inr ⟨rfl, h'⟩)
    | eq =>
      cases h'
      rfl

end

theorem Label.compare_compares (l m : Label) : (Label.compare l m).Compares l.rank m.rank := by
  cases l with
  | number v w =>
    cases m with
    | number v' w' =>
      exact Sum.Lex.inl_strictMono.compares.mpr
        (compares_then (compares_compare v v') (compares_compare w w'))
    | word t => exact Sum.Lex.inl_lt_inr _ _
  | word s =>
    cases m with
    | number v' w' => exact Sum.Lex.inl_lt_inr _ _
    | word t => exact Sum.Lex.inr_strictMono.compares.mpr (compares_compare s t)

theorem Label.compareAll_compares (ls ms : List Label) :
    (Label.compareAll ls ms).Compares (ls.map Label.rank) (ms.map Label.rank) := by
  induction ls generalizing ms with
  | nil =>
    cases ms with
    | nil => exact rfl
    | cons m ms => exact List.nil_lt_cons _ _
  | cons l ls ih =>
    cases ms with
    | nil => exact List.nil_lt_cons _ _
    | cons m ms => exact compares_cons (Label.compare_compares l m) (ih ms)

namespace Version

theorem comparePre_compares (ls ms : List Label) :
    (comparePre ls ms).Compares (preRank ls) (preRank ms) := by
  cases ls with
  | nil =>
    cases ms with
    | nil => exact rfl
    | cons m ms => exact WithTop.coe_lt_top _
  | cons l ls =>
    cases ms with
    | nil => exact WithTop.coe_lt_top _
    | cons m ms => exact WithTop.coe_strictMono.compares.mpr (Label.compareAll_compares _ _)

/-- Versions are compared by their places. -/
theorem compare_compares (v w : Version) : (compare v w).Compares v.rank w.rank := by
  refine compares_then (compares_compare _ _) ?_
  refine compares_then (compares_compare _ _) ?_
  refine compares_then (compares_compare _ _) ?_
  exact compares_then (comparePre_compares _ _) (Label.compareAll_compares _ _)

theorem lt_iff {v w : Version} : v.lt w = true ↔ v.rank < w.rank := by
  rw [lt, beq_iff_eq]
  exact (compare_compares v w).eq_lt

theorem le_iff {v w : Version} : v.le w = true ↔ v.rank ≤ w.rank := by
  rw [le, bne_iff_ne]
  exact (compare_compares v w).ne_gt

end Version

/-! ## Ranges -/

/-- The comparison that a sign stands for. -/
def Comparison.Between : Comparison → Version → Version → Prop
  | less, v, w => v.rank < w.rank
  | lessEq, v, w => v.rank ≤ w.rank

theorem Comparison.holds_iff {c : Comparison} {v w : Version} :
    c.holds v w = true ↔ c.Between v w := by
  cases c with
  | less => exact Version.lt_iff
  | lessEq => exact Version.le_iff

namespace VersionRange

/-- The version lies between the bounds, each taken as its sign says. -/
def Holds (r : VersionRange) (v : Version) : Prop :=
  r.lowCmp.Between r.low v ∧ r.highCmp.Between v r.high

theorem contains_iff {r : VersionRange} {v : Version} : r.contains v = true ↔ r.Holds v := by
  rw [contains, Bool.and_eq_true, Comparison.holds_iff, Comparison.holds_iff]
  rfl

end VersionRange
end UsageGraph
