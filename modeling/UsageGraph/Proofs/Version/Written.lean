import UsageGraph.Proofs.Lists
import UsageGraph.Proofs.Text.Splitting
import UsageGraph.Proofs.Version.Numbers

/-! # Versions and their text

* `Label.Valid`, `Label.parse?_eq_some`, `Label.parseAll?_eq_some`: labels are read from what they
  are written as, and from nothing else.
* `Version.numbers?_eq_some`: so are the three numbers of a version.
* `Version.WrittenAs`, `Version.parse?_eq_some`: the texts of versions, which are exactly the texts
  that are read.
-/

namespace UsageGraph
open Text
set_option autoImplicit false

/-! ## Labels -/

namespace Label

/-- The label is one that a text can have: a number is not wider than it is written, and a word is
made of label characters and is no number. -/
def Valid : Label → Prop
  | number value width => (Nat.toDigits 10 value).length ≤ width
  | word text => text ≠ "" ∧ (∀ c ∈ text.toList, isLabelChar c = true) ∧
      ∃ c ∈ text.toList, c.isDigit = false

variable {l : Label} {ls : List Label} {s : List Char}

theorem isLabelChar_of_isDigit {c : Char} (h : c.isDigit = true) : isLabelChar c = true := by
  rw [isLabelChar, isAsciiDigit_eq, h, Bool.or_true, Bool.true_or]

theorem Valid.isLabelChar (h : l.Valid) : ∀ c ∈ l.render.toList, isLabelChar c = true := by
  cases l with
  | number value width =>
    intro c hc
    rw [render, String.toList_ofList] at hc
    exact isLabelChar_of_isDigit (isDigit_padded c hc)
  | word text => exact h.2.1

theorem notMem_of_valid (h : l.Valid) {c : Char} (hc : Label.isLabelChar c = false) :
    c ∉ l.render.toList := by
  intro hmem
  rw [h.isLabelChar c hmem] at hc
  cases hc

theorem parse?_eq (hne : s ≠ []) (hs : ∀ c ∈ s, Label.isLabelChar c = true) : parse? s =
    match number? s with
    | some n => some (number n s.length)
    | none => some (word (String.ofList s)) := by
  refine if_neg ?_
  rw [not_or]
  refine ⟨hne, fun h => ?_⟩
  obtain ⟨c, hc, hother⟩ := List.any_eq_true.mp h
  rw [hs c hc] at hother
  cases hother

/-- A label is read from what it is written as, and from nothing else. -/
theorem parse?_eq_some : parse? s = some l ↔ l.Valid ∧ s = l.render.toList := by
  constructor
  · intro h
    by_cases hbad : s = [] ∨ s.any (fun c => !Label.isLabelChar c) = true
    · rw [parse?, if_pos hbad] at h
      cases h
    · rw [not_or] at hbad
      have hchars : ∀ c ∈ s, Label.isLabelChar c = true := by
        simpa using hbad.2
      rw [parse?_eq hbad.1 hchars] at h
      cases hnumber : number? s with
      | some n =>
        rw [hnumber] at h
        cases h
        obtain ⟨hne, hdigits, hvalue⟩ := number?_eq_some.mp hnumber
        have hs := eq_padded hne hdigits
        rw [hvalue] at hs
        have hlength := congrArg List.length hs
        rw [length_padded] at hlength
        refine ⟨?_, hs.trans String.toList_ofList.symm⟩
        rw [Valid]
        omega
      | none =>
        rw [hnumber] at h
        cases h
        have hother := (number?_eq_none hbad.1).mp hnumber
        rw [Valid, render, String.toList_ofList]
        refine ⟨⟨fun hempty => hbad.1 ?_, hchars, hother⟩, rfl⟩
        rw [← String.toList_ofList (l := s), hempty, String.toList_empty]
  · rintro ⟨hl, rfl⟩
    cases l with
    | number value width =>
      have hlength := length_padded width value
      have hpos : 0 < (Nat.toDigits 10 value).length := Nat.length_toDigits_pos
      have hne : (number value width).render.toList ≠ [] := by
        rw [← List.length_pos_iff, render, String.toList_ofList, hlength]
        omega
      rw [parse?_eq hne hl.isLabelChar, render, String.toList_ofList, number?_padded, hlength,
        Nat.max_eq_left hl]
    | word text =>
      have hne : text.toList ≠ [] := by
        intro hnil
        exact hl.1 (String.toList_injective (hnil.trans String.toList_empty.symm))
      rw [render, parse?_eq hne hl.2.1, (number?_eq_none hne).mpr hl.2.2, String.ofList_toList]

theorem mapM_parse?_eq_some {ps : List (List Char)} : ps.mapM parse? = some ls ↔
    (∀ l ∈ ls, l.Valid) ∧ ps = ls.map fun l => l.render.toList := by
  simp only [mapM_eq_some, parse?_eq_some]
  constructor
  · intro h
    induction h with
    | nil => exact ⟨nofun, rfl⟩
    | cons hl _ ih =>
      obtain ⟨hvalids, htexts⟩ := ih
      exact ⟨List.forall_mem_cons.mpr ⟨hl.1, hvalids⟩, by rw [hl.2, htexts, List.map_cons]⟩
  · rintro ⟨hvalid, rfl⟩
    exact List.forall₂_map_left_iff.mpr (List.forall₂_same.mpr fun l hl => ⟨hvalid l hl, rfl⟩)

theorem toList_renderAll (ls : List Label) :
    (renderAll ls).toList = ['.'].intercalate (ls.map fun l => l.render.toList) := by
  rw [renderAll, join, String.toList_intercalate, List.map_map]
  rfl

/-- Labels are read from what they are written as, point by point. -/
theorem parseAll?_eq_some : parseAll? s = some ls ↔
    (∀ l ∈ ls, l.Valid) ∧ ls ≠ [] ∧ s = (renderAll ls).toList := by
  rw [parseAll?, mapM_parse?_eq_some, toList_renderAll]
  refine and_congr_right fun hvalid => ?_
  have hpoint : ∀ p ∈ ls.map fun l => l.render.toList, '.' ∉ p := by
    intro p hp
    obtain ⟨l, hl, rfl⟩ := List.mem_map.mp hp
    exact notMem_of_valid (hvalid l hl) rfl
  constructor
  · intro h
    refine ⟨?_, ?_⟩
    · rintro rfl
      exact splitAll_ne_nil _ _ h
    · rw [← h, intercalate_splitAll]
  · rintro ⟨hne, rfl⟩
    exact splitAll_intercalate hpoint (mt List.map_eq_nil_iff.mp hne)

/-- Nothing else stands in labels but label characters and points. -/
theorem notMem_renderAll (hvalid : ∀ l ∈ ls, l.Valid) {c : Char}
    (hc : Label.isLabelChar c = false) (hpoint : c ≠ '.') : c ∉ (renderAll ls).toList := by
  cases ls with
  | nil => exact List.not_mem_nil
  | cons l ls =>
    have hparts := (parseAll?_eq_some (s := (renderAll (l :: ls)).toList)).mpr
      ⟨hvalid, List.cons_ne_nil _ _, rfl⟩
    rw [parseAll?, mapM_parse?_eq_some] at hparts
    rw [mem_iff_mem_splitAll hpoint, hparts.2]
    rintro ⟨p, hp, hmem⟩
    obtain ⟨l', hl', rfl⟩ := List.mem_map.mp hp
    exact notMem_of_valid (hvalid l' hl') hc hmem

end Label

/-! ## Versions -/

namespace Version

/-- The version is one that a text can have. -/
structure Valid (v : Version) : Prop where
  major_le : v.major ≤ maxNumber
  minor_le : v.minor ≤ maxNumber
  patch_le : v.patch ≤ maxNumber
  pre : ∀ l ∈ v.pre, l.Valid ∧ l.isPlain = true
  build : ∀ l ∈ v.build, l.Valid

/-- The text is that of the version. -/
def WrittenAs (v : Version) (text : String) : Prop := v.Valid ∧ v.render = text

/-! ### Numbers -/

theorem toList_renderNumbers (v : Version) : v.renderNumbers.toList = Nat.toDigits 10 v.major ++
    '.' :: (Nat.toDigits 10 v.minor ++ '.' :: Nat.toDigits 10 v.patch) := by
  simp [renderNumbers]

theorem notMem_renderNumbers {c : Char} (hc : c.isDigit = false) (hpoint : c ≠ '.')
    (v : Version) : c ∉ v.renderNumbers.toList := by
  simp [toList_renderNumbers, notMem_toDigits hc, hpoint]

theorem numbers?_eq_some {s : List Char} {a b c : Nat} : numbers? s = some (a, b, c) ↔
    a ≤ maxNumber ∧ b ≤ maxNumber ∧ c ≤ maxNumber ∧ s = (plain a b c).renderNumbers.toList := by
  constructor
  · intro h
    rw [numbers?] at h
    split at h
    · next x y z hs =>
      obtain ⟨a', ha, h⟩ := Option.bind_eq_some_iff.mp h
      obtain ⟨b', hb, h⟩ := Option.bind_eq_some_iff.mp h
      obtain ⟨c', hc, h⟩ := Option.bind_eq_some_iff.mp h
      cases h
      obtain ⟨hale, rfl⟩ := versionNumber?_eq_some.mp ha
      obtain ⟨hble, rfl⟩ := versionNumber?_eq_some.mp hb
      obtain ⟨hcle, rfl⟩ := versionNumber?_eq_some.mp hc
      refine ⟨hale, hble, hcle, ?_⟩
      rw [← intercalate_splitAll '.' s, hs, toList_renderNumbers]
      simp [List.intercalate, plain]
    · cases h
  · rintro ⟨ha, hb, hc, rfl⟩
    have hpoint : ∀ n, '.' ∉ Nat.toDigits 10 n := notMem_toDigits rfl
    rw [numbers?, toList_renderNumbers, splitAll_append_of_notMem (hpoint _),
      splitAll_append_of_notMem (hpoint _), splitAll_of_notMem (hpoint _)]
    simp only [plain]
    rw [versionNumber?_eq_some.mpr ⟨ha, rfl⟩, versionNumber?_eq_some.mpr ⟨hb, rfl⟩,
      versionNumber?_eq_some.mpr ⟨hc, rfl⟩]
    rfl

/-! ### Whole texts -/

/-- What stands behind a sign, with the sign, if anything does. -/
def behind (sign : Char) (rest : Option (List Char)) : List Char := rest.elim [] (sign :: ·)

theorem cut_eq_iff {c : Char} {s a : List Char} {rest : Option (List Char)} :
    cut c s = (a, rest) ↔ c ∉ a ∧ s = a ++ behind c rest := by
  rw [cut]
  cases hs : splitOnce c s with
  | none =>
    have hc := splitOnce_eq_none.mp hs
    constructor
    · rintro ⟨⟩
      exact ⟨hc, (List.append_nil s).symm⟩
    · rintro ⟨-, rfl⟩
      cases rest with
      | none => rw [behind, Option.elim, List.append_nil]
      | some b => exact absurd (List.mem_append_right _ List.mem_cons_self) hc
  | some p =>
    obtain ⟨x, y⟩ := p
    obtain ⟨rfl, hx⟩ := splitOnce_eq_some hs
    constructor
    · rintro ⟨⟩
      exact ⟨hx, rfl⟩
    · rintro ⟨ha, h⟩
      cases rest with
      | none =>
        rw [behind, Option.elim, List.append_nil] at h
        exact absurd (h ▸ List.mem_append_right _ List.mem_cons_self) ha
      | some b =>
        obtain ⟨rfl, rfl⟩ := append_cons_injective hx ha h
        rfl

/-- The labels as they are written, if there are any. -/
def written? (labels : List Label) : Option (List Char) :=
  if labels = [] then none else some (Label.renderAll labels).toList

theorem labels?_eq_some {rest : Option (List Char)} {labels : List Label} :
    labels? rest = some labels ↔ (∀ l ∈ labels, l.Valid) ∧ rest = written? labels := by
  cases rest with
  | none =>
    rw [labels?, written?]
    cases labels <;> simp
  | some s =>
    rw [labels?, Label.parseAll?_eq_some, written?]
    refine and_congr_right fun _ => ?_
    by_cases hlabels : labels = []
    · simp [hlabels]
    · simp [hlabels]

theorem toList_render (v : Version) : v.render.toList =
    (v.renderNumbers.toList ++ behind '-' (written? v.pre)) ++ behind '+' (written? v.build) := by
  simp only [render, String.toList_append, written?]
  split <;> split <;> simp [behind]

theorem notMem_behind {sign c : Char} {labels : List Label} (hvalid : ∀ l ∈ labels, l.Valid)
    (hsign : c ≠ sign) (hc : Label.isLabelChar c = false) (hpoint : c ≠ '.') :
    c ∉ behind sign (written? labels) := by
  rw [written?]
  split
  · exact List.not_mem_nil
  · rw [behind, Option.elim, List.mem_cons, not_or]
    exact ⟨hsign, Label.notMem_renderAll hvalid hc hpoint⟩

theorem parseChars?_eq_some {s : List Char} {v : Version} :
    parseChars? s = some v ↔ v.Valid ∧ s = v.render.toList := by
  rw [parseChars?]
  constructor
  · intro h
    obtain ⟨front, build, hfront⟩ : ∃ front build, cut '+' s = (front, build) := ⟨_, _, rfl⟩
    obtain ⟨core, pre, hcore⟩ : ∃ core pre, cut '-' front = (core, pre) := ⟨_, _, rfl⟩
    rw [hfront] at h
    dsimp only at h
    rw [hcore] at h
    dsimp only at h
    obtain ⟨⟨a, b, c⟩, hnumbers, h⟩ := Option.bind_eq_some_iff.mp h
    obtain ⟨pre', hpre, h⟩ := Option.bind_eq_some_iff.mp h
    obtain ⟨build', hbuild, h⟩ := Option.bind_eq_some_iff.mp h
    split at h
    · next hplain =>
      cases h
      obtain ⟨ha, hb, hc, rfl⟩ := numbers?_eq_some.mp hnumbers
      obtain ⟨hprevalid, rfl⟩ := labels?_eq_some.mp hpre
      obtain ⟨hbuildvalid, rfl⟩ := labels?_eq_some.mp hbuild
      obtain ⟨-, rfl⟩ := cut_eq_iff.mp hcore
      obtain ⟨-, rfl⟩ := cut_eq_iff.mp hfront
      refine ⟨⟨ha, hb, hc, fun l hl => ⟨hprevalid l hl, ?_⟩, hbuildvalid⟩, ?_⟩
      · exact List.all_eq_true.mp hplain l hl
      · rw [toList_render]
        rfl
    · cases h
  · rintro ⟨hv, rfl⟩
    -- The first plus is that of the build, and the first minus that of the labels before it.
    have hprevalid : ∀ l ∈ v.pre, l.Valid := fun l hl => (hv.pre l hl).1
    have hfront : cut '+' v.render.toList =
        (v.renderNumbers.toList ++ behind '-' (written? v.pre), written? v.build) := by
      refine cut_eq_iff.mpr ⟨?_, toList_render v⟩
      rw [List.mem_append, not_or]
      exact ⟨notMem_renderNumbers rfl (by decide) v,
        notMem_behind hprevalid (by decide) rfl (by decide)⟩
    have hcore : cut '-' (v.renderNumbers.toList ++ behind '-' (written? v.pre)) =
        (v.renderNumbers.toList, written? v.pre) :=
      cut_eq_iff.mpr ⟨notMem_renderNumbers rfl (by decide) v, rfl⟩
    have hnumbers : numbers? v.renderNumbers.toList = some (v.major, v.minor, v.patch) :=
      numbers?_eq_some.mpr ⟨hv.major_le, hv.minor_le, hv.patch_le, rfl⟩
    have hplain : v.pre.all Label.isPlain = true :=
      List.all_eq_true.mpr fun l hl => (hv.pre l hl).2
    rw [hfront]
    dsimp only
    rw [hcore]
    dsimp only
    rw [hnumbers, labels?_eq_some.mpr ⟨hprevalid, rfl⟩, labels?_eq_some.mpr ⟨hv.build, rfl⟩]
    exact if_pos hplain

/-- Exactly the texts of versions are read, each as the version that it is the text of. -/
theorem parse?_eq_some {s : String} {v : Version} : parse? s = some v ↔ v.WrittenAs s := by
  rw [parse?, parseChars?_eq_some, WrittenAs]
  refine and_congr_right fun _ => ⟨fun h => (String.toList_injective h).symm, fun h => ?_⟩
  rw [h]

theorem parse?_eq_none {s : String} : parse? s = none ↔ ∀ v, ¬WrittenAs v s := by
  rw [Option.eq_none_iff_forall_ne_some]
  exact forall_congr' fun v => not_congr parse?_eq_some

theorem WrittenAs.unique {v w : Version} {s : String} (hv : v.WrittenAs s) (hw : w.WrittenAs s) :
    v = w :=
  Option.some.inj ((parse?_eq_some.mpr hv).symm.trans (parse?_eq_some.mpr hw))

end Version

end UsageGraph
