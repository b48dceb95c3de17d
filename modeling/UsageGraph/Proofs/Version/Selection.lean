import UsageGraph.Proofs.Version.Order
import UsageGraph.Proofs.Version.Range
import UsageGraph.Version.Selection

/-! # What is chosen for a range

* `VersionRange.Admits`: a text is that of a version in a range.
* `VersionRange.Chooses`: what a policy takes among published texts.
* `selectVersion_spec`: an expression stands for what is chosen, or for itself.
* `selectVersion_highest_of_mem_iff`: the highest one does not depend on the order of the texts.
-/

namespace UsageGraph
open Text
set_option autoImplicit false

/-! ## Texts in a range -/

namespace VersionRange

/-- The text is that of a version in the range. -/
def Admits (r : VersionRange) (text : String) : Prop :=
  ∃ v : Version, v.WrittenAs text ∧ r.Holds v

/-- What `policy` takes among the published texts that are versions in the range. -/
structure Chooses (r : VersionRange) (policy : SelectionPolicy) (published : List String)
    (chosen : String) : Prop where
  mem : chosen ∈ published
  admitted : r.Admits chosen
  first : policy = .first → ∃ before after, published = before ++ chosen :: after ∧
    ∀ text ∈ before, ¬r.Admits text
  highest : policy = .highest → ∀ text ∈ published, r.Admits text →
    ∀ v w : Version, v.WrittenAs text → w.WrittenAs chosen → v.rank ≤ w.rank

variable {r : VersionRange} {published : List String} {text : String}

theorem admitted?_eq_some {v : Version} :
    (Version.parse? text).filter r.contains = some v ↔ v.WrittenAs text ∧ r.Holds v := by
  rw [Option.filter_eq_some_iff, Version.parse?_eq_some, contains_iff]

theorem admitted?_eq_none :
    (Version.parse? text).filter r.contains = none ↔ ¬r.Admits text := by
  rw [Option.eq_none_iff_forall_ne_some, Admits, not_exists]
  exact forall_congr' fun v => not_congr admitted?_eq_some

theorem mem_candidates {c : Version × String} : c ∈ candidates r published ↔
    c.2 ∈ published ∧ c.1.WrittenAs c.2 ∧ r.Holds c.1 := by
  rw [candidates, List.mem_filterMap]
  constructor
  · rintro ⟨text, htext, h⟩
    obtain ⟨v, hv, rfl⟩ := Option.map_eq_some_iff.mp h
    exact ⟨htext, admitted?_eq_some.mp hv⟩
  · rintro ⟨htext, hc⟩
    exact ⟨c.2, htext, Option.map_eq_some_iff.mpr ⟨c.1, admitted?_eq_some.mpr hc, rfl⟩⟩

theorem candidates_eq_nil : candidates r published = [] ↔ ∀ text ∈ published, ¬r.Admits text := by
  rw [candidates, List.filterMap_eq_nil_iff]
  refine forall₂_congr fun text _ => ?_
  rw [Option.map_eq_none_iff, admitted?_eq_none]

theorem head?_candidates {c : Version × String} (h : (candidates r published).head? = some c) :
    ∃ before after, published = before ++ c.2 :: after ∧ ∀ text ∈ before, ¬r.Admits text := by
  rw [candidates, List.head?_filterMap, List.findSome?_eq_some_iff] at h
  obtain ⟨before, text, after, hsplit, hc, hbefore⟩ := h
  obtain ⟨v, -, rfl⟩ := Option.map_eq_some_iff.mp hc
  refine ⟨before, after, hsplit, fun text htext => ?_⟩
  exact admitted?_eq_none.mp (Option.map_eq_none_iff.mp (hbefore text htext))

end VersionRange

/-! ## The highest one -/

theorem higher_eq (a b : Version × String) : higher a b = a ∨ higher a b = b := by
  rw [higher]
  split
  · exact .inl rfl
  · exact .inr rfl

theorem rank_le_higher (a b : Version × String) :
    a.1.rank ≤ (higher a b).1.rank ∧ b.1.rank ≤ (higher a b).1.rank := by
  have hcompare := Version.compare_compares a.1 b.1
  rw [higher]
  by_cases hgt : Version.compare a.1 b.1 = .gt
  · rw [if_pos hgt]
    exact ⟨le_refl _, le_of_lt (hcompare.eq_gt.mp hgt)⟩
  · rw [if_neg hgt]
    exact ⟨hcompare.ne_gt.mp hgt, le_refl _⟩

theorem foldl_higher (c : Version × String) (cs : List (Version × String)) :
    cs.foldl higher c ∈ c :: cs ∧ ∀ d ∈ c :: cs, d.1.rank ≤ (cs.foldl higher c).1.rank := by
  induction cs generalizing c with
  | nil => simp
  | cons b cs ih =>
    rw [List.foldl_cons]
    -- The rest of the fold starts from the higher of the first two, which bounds both.
    obtain ⟨hmem, hle⟩ := ih (higher c b)
    have hhigher := hle (higher c b) List.mem_cons_self
    have hpair := rank_le_higher c b
    constructor
    · rcases List.mem_cons.mp hmem with heq | hmem
      · rw [heq]
        rcases higher_eq c b with h | h <;> simp [h]
      · exact List.mem_cons_of_mem _ (List.mem_cons_of_mem _ hmem)
    · intro d hd
      rw [List.mem_cons, List.mem_cons] at hd
      rcases hd with rfl | rfl | hd
      · exact hpair.1.trans hhigher
      · exact hpair.2.trans hhigher
      · exact hle d (List.mem_cons_of_mem _ hd)

theorem highest?_eq_none {cs : List (Version × String)} : highest? cs = none ↔ cs = [] := by
  cases cs with
  | nil => exact iff_of_true rfl rfl
  | cons c cs => exact iff_of_false nofun nofun

theorem highest?_spec {cs : List (Version × String)} {c : Version × String}
    (h : highest? cs = some c) : c ∈ cs ∧ ∀ d ∈ cs, d.1.rank ≤ c.1.rank := by
  cases cs with
  | nil => cases h
  | cons b cs =>
    cases h
    exact foldl_higher b cs

/-! ## What an expression stands for -/

section
variable {policy : SelectionPolicy} {expr chosen : String} {r : VersionRange}
  {published published' : List String}

theorem SelectionPolicy.pick_eq_none :
    policy.pick (candidates r published) = none ↔ ∀ text ∈ published, ¬r.Admits text := by
  rw [← VersionRange.candidates_eq_nil]
  cases policy with
  | highest => rw [pick, Option.map_eq_none_iff, highest?_eq_none]
  | first => rw [pick, Option.map_eq_none_iff, List.head?_eq_none_iff]

theorem SelectionPolicy.pick_spec (h : policy.pick (candidates r published) = some chosen) :
    r.Chooses policy published chosen := by
  cases policy with
  | highest =>
    obtain ⟨c, hc, rfl⟩ := Option.map_eq_some_iff.mp h
    obtain ⟨hmem, hle⟩ := highest?_spec hc
    obtain ⟨htext, hwritten, hholds⟩ := VersionRange.mem_candidates.mp hmem
    refine ⟨htext, ⟨c.1, hwritten, hholds⟩, nofun, fun _ text hpublished hadmits v w hv hw => ?_⟩
    obtain ⟨u, hu, huholds⟩ := hadmits
    rw [hv.unique hu, hw.unique hwritten]
    exact hle (u, text) (VersionRange.mem_candidates.mpr ⟨hpublished, hu, huholds⟩)
  | first =>
    obtain ⟨c, hc, rfl⟩ := Option.map_eq_some_iff.mp h
    obtain ⟨htext, hwritten, hholds⟩ :=
      VersionRange.mem_candidates.mp (List.mem_of_mem_head? hc)
    exact ⟨htext, ⟨c.1, hwritten, hholds⟩, fun _ => VersionRange.head?_candidates hc, nofun⟩

theorem selectVersion_of_not_inGrammar (h : ¬VersionRange.InGrammar (trim expr)) :
    selectVersion policy expr published = expr := by
  rw [selectVersion, VersionRange.parse?_eq_none.mpr h]

theorem selectVersion_of_not_admits (hr : r.WrittenAs expr)
    (h : ∀ text ∈ published, ¬r.Admits text) : selectVersion policy expr published = expr := by
  rw [selectVersion, VersionRange.parse?_eq_some.mpr hr]
  dsimp only
  rw [SelectionPolicy.pick_eq_none.mpr h, Option.getD_none]

theorem chooses_selectVersion (hr : r.WrittenAs expr) (h : ∃ text ∈ published, r.Admits text) :
    r.Chooses policy published (selectVersion policy expr published) := by
  rw [selectVersion, VersionRange.parse?_eq_some.mpr hr]
  dsimp only
  cases hpick : policy.pick (candidates r published) with
  | none =>
    obtain ⟨text, htext, hadmits⟩ := h
    exact absurd hadmits (SelectionPolicy.pick_eq_none.mp hpick text htext)
  | some chosen => exact SelectionPolicy.pick_spec hpick

/-- An expression that is no range stands for itself, and so does a range without a published
version in it. Any other range stands for the published version that the policy takes. -/
theorem selectVersion_spec (policy : SelectionPolicy) (expr : String) (published : List String) :
    (¬VersionRange.InGrammar (trim expr) → selectVersion policy expr published = expr) ∧
    (VersionRange.InGrammar (trim expr) → ∃ range : VersionRange, range.WrittenAs expr ∧
      ((∀ text ∈ published, ¬range.Admits text) → selectVersion policy expr published = expr) ∧
      ((∃ text ∈ published, range.Admits text) →
        range.Chooses policy published (selectVersion policy expr published))) := by
  refine ⟨selectVersion_of_not_inGrammar, fun h => ?_⟩
  obtain ⟨r, hr⟩ := VersionRange.inGrammar_trim_iff.mp h
  exact ⟨r, hr, selectVersion_of_not_admits hr, chooses_selectVersion hr⟩

/-- The highest one is the same text in lists with the same members. -/
theorem VersionRange.Chooses.unique {chosen' : String} (h : r.Chooses .highest published chosen)
    (h' : r.Chooses .highest published' chosen')
    (hmem : ∀ text, text ∈ published ↔ text ∈ published') : chosen = chosen' := by
  -- Each bounds the other, and no two versions have one place.
  obtain ⟨v, hv, -⟩ := h.admitted
  obtain ⟨w, hw, -⟩ := h'.admitted
  have hle : v.rank ≤ w.rank := h'.highest rfl chosen ((hmem _).mp h.mem) h.admitted v w hv hw
  have hge : w.rank ≤ v.rank := h.highest rfl chosen' ((hmem _).mpr h'.mem) h'.admitted w v hw hv
  have heq : v = w := Version.rank_injective (le_antisymm hle hge)
  rw [← hv.2, ← hw.2, heq]

/-- The order of the published texts and their repetitions do not matter to the highest one. -/
theorem selectVersion_highest_of_mem_iff (expr : String)
    (hmem : ∀ text, text ∈ published ↔ text ∈ published') :
    selectVersion .highest expr published = selectVersion .highest expr published' := by
  by_cases hgrammar : VersionRange.InGrammar (trim expr)
  · obtain ⟨r, hr⟩ := VersionRange.inGrammar_trim_iff.mp hgrammar
    by_cases hadmits : ∃ text ∈ published, r.Admits text
    · have hadmits' : ∃ text ∈ published', r.Admits text := by
        obtain ⟨text, htext, h⟩ := hadmits
        exact ⟨text, (hmem text).mp htext, h⟩
      exact (chooses_selectVersion hr hadmits).unique (chooses_selectVersion hr hadmits') hmem
    · have hnone : ∀ text ∈ published, ¬r.Admits text := fun text htext h =>
        hadmits ⟨text, htext, h⟩
      have hnone' : ∀ text ∈ published', ¬r.Admits text := fun text htext =>
        hnone text ((hmem text).mpr htext)
      rw [selectVersion_of_not_admits hr hnone, selectVersion_of_not_admits hr hnone']
  · rw [selectVersion_of_not_inGrammar hgrammar, selectVersion_of_not_inGrammar hgrammar]

/-- Versions that differ in their build alone, in two orders and with a text that is no version. The
one with a build is selected, and from both. -/
theorem selectVersion_highest_shuffled :
    (∀ text, text ∈ ["1.0.0+b", "1.0.0", "latest", "1.0.0"] ↔
      text ∈ ["1.0.0", "latest", "1.0.0+b"]) ∧
    selectVersion .highest "1.0.0 <= v < 2.0.0" ["1.0.0+b", "1.0.0", "latest", "1.0.0"] =
      selectVersion .highest "1.0.0 <= v < 2.0.0" ["1.0.0", "latest", "1.0.0+b"] ∧
    selectVersion .highest "1.0.0 <= v < 2.0.0" ["1.0.0", "latest", "1.0.0+b"] = "1.0.0+b" := by
  have hmem : ∀ text, text ∈ ["1.0.0+b", "1.0.0", "latest", "1.0.0"] ↔
      text ∈ ["1.0.0", "latest", "1.0.0+b"] := by
    intro text
    simp only [List.mem_cons, List.not_mem_nil, or_false]
    grind
  exact ⟨hmem, selectVersion_highest_of_mem_iff _ hmem, by decide +kernel⟩

end
end UsageGraph
