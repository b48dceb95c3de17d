import UsageGraph.Proofs.Version.Written
import UsageGraph.Version.Range

/-! # Version ranges and their text

* `VersionRange.InGrammar`: the grammar of ranges, character by character.
* `VersionRange.WrittenAs`: a range of plain versions and its text, with blanks around it or not.
* `VersionRange.parse?_eq_some`: exactly these texts are read, each as the range it is written for.
* `VersionRange.grammar_exact`: what is read is the grammar, and is written back as it was.
-/

namespace UsageGraph
open Text
set_option autoImplicit false

/-! ## The grammar -/

/-- Three numerals with points between them. -/
def Triple (s : List Char) : Prop :=
  ∃ a b c, VersionNumeral a ∧ VersionNumeral b ∧ VersionNumeral c ∧ s = a ++ '.' :: (b ++ '.' :: c)

def ComparisonSign (s : List Char) : Prop := s = ['<'] ∨ s = ['<', '=']

/-- Two triples with signs and a `v` between them, all of them apart by single spaces. -/
def VersionRange.InGrammar (s : String) : Prop :=
  ∃ low lowSign highSign high, Triple low ∧ ComparisonSign lowSign ∧ ComparisonSign highSign ∧
    Triple high ∧
    s.toList = low ++ ' ' :: (lowSign ++ ' ' :: 'v' :: ' ' :: (highSign ++ ' ' :: high))

/-! ## Bounds -/

/-- The version has no labels, and its numbers fit 64 bits. -/
structure Version.Plain (v : Version) : Prop where
  valid : v.Valid
  pre : v.pre = []
  build : v.build = []

namespace Version
variable {v : Version} {s : List Char}

theorem plain_plain {a b c : Nat} : (plain a b c).Plain ↔
    a ≤ maxNumber ∧ b ≤ maxNumber ∧ c ≤ maxNumber :=
  ⟨fun h => ⟨h.valid.major_le, h.valid.minor_le, h.valid.patch_le⟩,
    fun ⟨ha, hb, hc⟩ => ⟨⟨ha, hb, hc, nofun, nofun⟩, rfl, rfl⟩⟩

theorem Plain.eq_plain (h : v.Plain) : v = plain v.major v.minor v.patch := by
  obtain ⟨major, minor, patch, pre, build⟩ := v
  obtain ⟨-, rfl, rfl⟩ := h
  rfl

theorem bound?_eq_some : VersionRange.bound? s = some v ↔
    v.Plain ∧ s = v.renderNumbers.toList := by
  rw [VersionRange.bound?, Option.map_eq_some_iff]
  constructor
  · rintro ⟨⟨a, b, c⟩, hnumbers, rfl⟩
    obtain ⟨ha, hb, hc, rfl⟩ := numbers?_eq_some.mp hnumbers
    exact ⟨plain_plain.mpr ⟨ha, hb, hc⟩, rfl⟩
  · rintro ⟨hv, rfl⟩
    have hvalid := hv.valid
    refine ⟨(v.major, v.minor, v.patch), ?_, hv.eq_plain.symm⟩
    exact numbers?_eq_some.mpr ⟨hvalid.major_le, hvalid.minor_le, hvalid.patch_le, rfl⟩

theorem triple_iff : Triple s ↔ ∃ v : Version, v.Plain ∧ s = v.renderNumbers.toList := by
  constructor
  · rintro ⟨a, b, c, ha, hb, hc, rfl⟩
    obtain ⟨x, hx, rfl⟩ := versionNumeral_iff.mp ha
    obtain ⟨y, hy, rfl⟩ := versionNumeral_iff.mp hb
    obtain ⟨z, hz, rfl⟩ := versionNumeral_iff.mp hc
    exact ⟨plain x y z, plain_plain.mpr ⟨hx, hy, hz⟩, (toList_renderNumbers (plain x y z)).symm⟩
  · rintro ⟨v, hv, rfl⟩
    have hvalid := hv.valid
    have hnumeral : ∀ n, n ≤ maxNumber → VersionNumeral (Nat.toDigits 10 n) := fun n hn =>
      versionNumeral_iff.mpr ⟨n, hn, rfl⟩
    exact ⟨_, _, _, hnumeral _ hvalid.major_le, hnumeral _ hvalid.minor_le,
      hnumeral _ hvalid.patch_le, toList_renderNumbers v⟩

end Version

/-! ## Ranges -/

theorem Comparison.parse?_eq_some {s : List Char} {c : Comparison} :
    Comparison.parse? s = some c ↔ s = c.render.toList := by
  rw [Comparison.parse?]
  constructor
  · intro h
    split at h
    · next hs =>
      cases h
      exact hs
    · split at h
      · next hs =>
        cases h
        exact hs
      · cases h
  · rintro rfl
    cases c <;> rfl

theorem comparisonSign_iff {s : List Char} :
    ComparisonSign s ↔ ∃ c : Comparison, s = c.render.toList := by
  constructor
  · rintro (rfl | rfl)
    · exact ⟨.less, rfl⟩
    · exact ⟨.lessEq, rfl⟩
  · rintro ⟨c, rfl⟩
    cases c with
    | less => exact .inl rfl
    | lessEq => exact .inr rfl

namespace VersionRange
variable {r : VersionRange} {s : String}

/-- Both bounds are plain. -/
def Plain (r : VersionRange) : Prop := r.low.Plain ∧ r.high.Plain

/-- The text is that of the range, apart from blanks around it. -/
def WrittenAs (r : VersionRange) (text : String) : Prop := r.Plain ∧ r.render = trim text

/-! ### The text of a range -/

theorem toList_render (r : VersionRange) : r.render.toList =
    r.low.renderNumbers.toList ++ ' ' :: (r.lowCmp.render.toList ++ ' ' :: 'v' :: ' ' ::
      (r.highCmp.render.toList ++ ' ' :: r.high.renderNumbers.toList)) := by
  simp [render]

theorem inGrammar_iff : InGrammar s ↔ ∃ r : VersionRange, r.Plain ∧ r.render = s := by
  constructor
  · rintro ⟨_, _, _, _, hlowText, hlowSign, hhighSign, hhighText, hs⟩
    obtain ⟨low, hlow, rfl⟩ := Version.triple_iff.mp hlowText
    obtain ⟨high, hhigh, rfl⟩ := Version.triple_iff.mp hhighText
    obtain ⟨lowCmp, rfl⟩ := comparisonSign_iff.mp hlowSign
    obtain ⟨highCmp, rfl⟩ := comparisonSign_iff.mp hhighSign
    refine ⟨⟨low, lowCmp, highCmp, high⟩, ⟨hlow, hhigh⟩, String.toList_injective ?_⟩
    rw [hs, toList_render]
  · rintro ⟨r, hr, rfl⟩
    exact ⟨_, _, _, _, Version.triple_iff.mpr ⟨_, hr.1, rfl⟩, comparisonSign_iff.mpr ⟨_, rfl⟩,
      comparisonSign_iff.mpr ⟨_, rfl⟩, Version.triple_iff.mpr ⟨_, hr.2, rfl⟩, toList_render r⟩

/-! ### Reading -/

theorem space_notMem_sign (c : Comparison) : ' ' ∉ c.render.toList := by
  cases c <;> decide

theorem parseChars?_eq_some {s : List Char} :
    parseChars? s = some r ↔ r.Plain ∧ s = r.render.toList := by
  constructor
  · intro h
    rw [parseChars?] at h
    split at h
    · next low lowCmp highCmp high hs =>
      obtain ⟨low', hlowText, h⟩ := Option.bind_eq_some_iff.mp h
      obtain ⟨lowCmp', hlowCmp, h⟩ := Option.bind_eq_some_iff.mp h
      obtain ⟨highCmp', hhighCmp, h⟩ := Option.bind_eq_some_iff.mp h
      obtain ⟨high', hhighText, h⟩ := Option.bind_eq_some_iff.mp h
      cases h
      obtain ⟨hlow, rfl⟩ := Version.bound?_eq_some.mp hlowText
      obtain ⟨hhigh, rfl⟩ := Version.bound?_eq_some.mp hhighText
      have hlowSign := Comparison.parse?_eq_some.mp hlowCmp
      have hhighSign := Comparison.parse?_eq_some.mp hhighCmp
      refine ⟨⟨hlow, hhigh⟩, ?_⟩
      rw [← intercalate_splitAll ' ' s, hs, toList_render, hlowSign, hhighSign]
      simp [List.intercalate]
    · cases h
  · rintro ⟨hr, hs⟩
    -- No part has a space in it, so the cuts at spaces give the parts back.
    have hspace : ∀ v : Version, ' ' ∉ v.renderNumbers.toList :=
      Version.notMem_renderNumbers rfl (by decide)
    have hparts : splitAll ' ' r.render.toList = [r.low.renderNumbers.toList,
        r.lowCmp.render.toList, ['v'], r.highCmp.render.toList, r.high.renderNumbers.toList] := by
      rw [toList_render, splitAll_append_of_notMem (hspace _),
        splitAll_append_of_notMem (space_notMem_sign _)]
      have hletter : ∀ rest, splitAll ' ' ('v' :: ' ' :: rest) = ['v'] :: splitAll ' ' rest :=
        splitAll_append_of_notMem (a := ['v']) (by decide)
      rw [hletter, splitAll_append_of_notMem (space_notMem_sign _), splitAll_of_notMem (hspace _)]
    rw [parseChars?, hs, hparts]
    change (bound? _ >>= fun low => Comparison.parse? _ >>= fun lowCmp =>
      Comparison.parse? _ >>= fun highCmp => bound? _ >>= fun high =>
        some (⟨low, lowCmp, highCmp, high⟩ : VersionRange)) = some r
    rw [Version.bound?_eq_some.mpr ⟨hr.1, rfl⟩, Version.bound?_eq_some.mpr ⟨hr.2, rfl⟩,
      Comparison.parse?_eq_some.mpr rfl, Comparison.parse?_eq_some.mpr rfl]
    rfl

/-- Exactly the texts of ranges are read, each as the range that it is the text of. -/
theorem parse?_eq_some : parse? s = some r ↔ r.WrittenAs s := by
  rw [parse?, parseChars?_eq_some, WrittenAs, trim]
  refine and_congr_right fun _ => ⟨fun h => ?_, fun h => ?_⟩
  · rw [h, String.ofList_toList]
  · rw [h, String.toList_ofList]

theorem WrittenAs.unique {r' : VersionRange} (h : r.WrittenAs s) (h' : r'.WrittenAs s) : r = r' :=
  Option.some.inj ((parse?_eq_some.mpr h).symm.trans (parse?_eq_some.mpr h'))

theorem inGrammar_trim_iff : InGrammar (trim s) ↔ ∃ r : VersionRange, r.WrittenAs s :=
  inGrammar_iff

theorem parse?_eq_none : parse? s = none ↔ ¬InGrammar (trim s) := by
  rw [inGrammar_trim_iff, Option.eq_none_iff_forall_ne_some, not_exists]
  exact forall_congr' fun r => not_congr parse?_eq_some

/-! ### Blanks around -/

theorem not_blank_of_isDigit {c : Char} (h : c.isDigit = true) : isBlank c = false := by
  have hrange : 48 ≤ c.toNat ∧ c.toNat ≤ 57 := by
    rw [Char.isDigit, Bool.and_eq_true, decide_eq_true_iff, decide_eq_true_iff] at h
    exact h
  simp [isBlank]
  omega

theorem trim_between (r : VersionRange) {before after : String} (hbefore : allBlank before = true)
    (hafter : allBlank after = true) : trim (before ++ r.render ++ after) = r.render := by
  have hhead : ∀ x ∈ r.render.toList.head?, isBlank x = false := by
    intro x hx
    rw [toList_render, Version.toList_renderNumbers, List.append_assoc] at hx
    exact not_blank_of_isDigit (isDigit_of_head? _ _ x hx)
  obtain ⟨front, hfront⟩ : ∃ front, r.render.toList = front ++ Nat.toDigits 10 r.high.patch := by
    refine ⟨r.low.renderNumbers.toList ++ ' ' :: (r.lowCmp.render.toList ++ ' ' :: 'v' :: ' ' ::
      (r.highCmp.render.toList ++ ' ' :: (Nat.toDigits 10 r.high.major ++ '.' ::
        (Nat.toDigits 10 r.high.minor ++ ['.'])))), ?_⟩
    simp [toList_render, Version.toList_renderNumbers]
  have hlast : ∀ x ∈ r.render.toList.getLast?, isBlank x = false := by
    intro x hx
    rw [hfront] at hx
    exact not_blank_of_isDigit (isDigit_of_getLast? _ _ x hx)
  have hne : r.render.toList ≠ [] := by
    rw [hfront]
    exact List.append_ne_nil_of_right_ne_nil _ Nat.toDigits_ne_nil
  rw [trim, String.toList_append, String.toList_append, List.append_assoc,
    trimChars_append hbefore hafter hhead hlast hne, String.ofList_toList]

/-- What is read is the grammar between blanks, and every range of plain versions has its text. -/
theorem grammar_exact (s : String) :
    ((parse? s).isSome = true ↔ InGrammar (trim s)) ∧
    (∀ r, parse? s = some r → r.Plain ∧ r.render = trim s) ∧
    ∀ r : VersionRange, r.Plain → ∀ before after : String, allBlank before = true →
      allBlank after = true → parse? (before ++ r.render ++ after) = some r := by
  refine ⟨?_, fun r => parse?_eq_some.mp, fun r hr before after hbefore hafter => ?_⟩
  · rw [Option.isSome_iff_ne_none, ne_eq, parse?_eq_none, Classical.not_not]
  · exact parse?_eq_some.mpr ⟨hr, (trim_between r hbefore hafter).symm⟩

end VersionRange
end UsageGraph
