import UsageGraph.Path.Basic
import UsageGraph.Proofs.Text.Splitting

/-! # The components of paths

* `Path.lead`, `Path.way`: the mark in front of a path, and the steps behind it without dots.
* `Path.SameWay`: two paths that differ in dots and slashes at most.
* `Path.parts_join`: a path below a directory goes on from the components of the directory.
* `Path.Plain`: the name of a directory.
* `Path.parts_ofParts`: components that are written out are read back.
-/

namespace UsageGraph
open Text
set_option autoImplicit false

namespace Path

/-! ## Segments -/

/-- A part that can stand between two slashes. -/
def Part.Inner : Part → Prop
  | .root => False
  | .here => True
  | .up => True
  | .name s => s ≠ [] ∧ '/' ∉ s ∧ s ≠ ['.'] ∧ s ≠ ['.', '.']

theorem Part.inner_ofText {s : List Char} (hne : s ≠ []) (hs : '/' ∉ s) : (ofText s).Inner := by
  rw [ofText]
  split
  · trivial
  · split
    · trivial
    · exact ⟨hne, hs, by assumption, by assumption⟩

theorem Part.text_of_inner {p : Part} (h : p.Inner) : p.text ≠ [] ∧ '/' ∉ p.text := by
  cases p with
  | root => exact h.elim
  | here => decide
  | up => decide
  | name s => exact ⟨h.1, h.2.1⟩

theorem Part.ofText_text {p : Part} (h : p.Inner) : ofText p.text = p := by
  cases p with
  | root => exact h.elim
  | here => rfl
  | up => rfl
  | name s => rw [ofText, text, if_neg h.2.2.1, if_neg h.2.2.2]

theorem inner_of_mem_segments {s : List Char} {p : Part} (h : p ∈ segments s) : p.Inner := by
  obtain ⟨q, hq, rfl⟩ := List.mem_map.mp h
  obtain ⟨hmem, hne⟩ := List.mem_filter.mp hq
  exact Part.inner_ofText (of_decide_eq_true hne) (notMem_of_mem_splitAll hmem)

theorem segments_append (a b : List Char) :
    segments (a ++ '/' :: b) = segments a ++ segments b := by
  rw [segments, splitAll_append, List.filter_append, List.map_append]
  rfl

theorem segments_slash (s : List Char) : segments ('/' :: s) = segments s :=
  segments_append [] s

theorem segments_concat_slash (s : List Char) : segments (s ++ ['/']) = segments s := by
  rw [segments_append]
  exact List.append_nil _

theorem segments_of_notMem {s : List Char} (hne : s ≠ []) (hs : '/' ∉ s) :
    segments s = [Part.ofText s] := by
  have hfull : decide (s ≠ []) = true := decide_eq_true hne
  simp only [segments, splitAll_of_notMem hs, List.filter_cons, hfull]
  rfl

theorem segments_joinChars {ps : List Part} (h : ∀ p ∈ ps, p.Inner) :
    segments (joinChars (ps.map Part.text)) = ps := by
  cases ps with
  | nil => rfl
  | cons p ps =>
    have hslash : ∀ s ∈ (p :: ps).map Part.text, '/' ∉ s := by
      intro s hs
      obtain ⟨q, hq, rfl⟩ := List.mem_map.mp hs
      exact (Part.text_of_inner (h q hq)).2
    have hfull : ∀ s ∈ (p :: ps).map Part.text, decide (s ≠ []) = true := by
      intro s hs
      obtain ⟨q, hq, rfl⟩ := List.mem_map.mp hs
      exact decide_eq_true (Part.text_of_inner (h q hq)).1
    have hpieces : splitAll '/' (joinChars ((p :: ps).map Part.text)) = (p :: ps).map Part.text :=
      splitAll_intercalate hslash (List.cons_ne_nil _ _)
    rw [segments, hpieces, List.filter_eq_self.mpr hfull, List.map_map]
    exact (List.map_congr_left fun q hq => Part.ofText_text (h q hq)).trans (List.map_id _)

/-! ## Lead and way -/

/-- The mark in front of a path: a slash, a dot or nothing. -/
def lead (p : String) : List Part :=
  if isAbsolute p then [.root]
  else if (segments p.toList).head? = some .here then [.here] else []

/-- The steps of a path, without the dots, which lead nowhere. -/
def way (p : String) : List Part := (segments p.toList).filter (· ≠ .here)

theorem parts_eq (p : String) : parts p = lead p ++ way p := by
  rw [parts, lead]
  split
  · rfl
  · split <;> rfl

theorem inner_of_mem_way {p : String} {q : Part} (h : q ∈ way p) : q.Inner ∧ q ≠ .here := by
  obtain ⟨hmem, hne⟩ := List.mem_filter.mp h
  exact ⟨inner_of_mem_segments hmem, of_decide_eq_true hne⟩

theorem Part.Inner.ne_root {q : Part} (h : q.Inner) : q ≠ .root := by
  rintro rfl
  exact h

theorem root_mem_parts {p : String} : Part.root ∈ parts p ↔ isAbsolute p := by
  have hway : Part.root ∉ way p := fun h => (inner_of_mem_way h).1
  rw [parts_eq, List.mem_append, or_iff_left hway, lead]
  by_cases habs : isAbsolute p = true
  · simp [habs]
  · by_cases hhere : (segments p.toList).head? = some .here <;> simp [habs, hhere]

theorem filter_way (p : String) :
    (way p).filter (fun q => decide (q ≠ .root ∧ q ≠ .here)) = way p := by
  refine List.filter_eq_self.mpr fun q hq => decide_eq_true ?_
  exact ⟨(inner_of_mem_way hq).1.ne_root, (inner_of_mem_way hq).2⟩

theorem way_eq_filter (p : String) :
    way p = (parts p).filter fun q => q ≠ .root ∧ q ≠ .here := by
  have hlead : (lead p).filter (fun q => decide (q ≠ .root ∧ q ≠ .here)) = [] := by
    rw [lead]
    split
    · rfl
    · split <;> rfl
  rw [parts_eq, List.filter_append, hlead, filter_way, List.nil_append]

section
variable {p q : String}

theorem isAbsolute_congr (h : parts p = parts q) : isAbsolute p = isAbsolute q := by
  rw [Bool.eq_iff_iff, ← root_mem_parts, ← root_mem_parts, h]

theorem way_congr (h : parts p = parts q) : way p = way q := by
  rw [way_eq_filter, way_eq_filter, h]

/-- The paths differ in dots and slashes at most. -/
structure SameWay (p q : String) : Prop where
  isAbsolute : isAbsolute p = isAbsolute q
  way : way p = way q

theorem sameWay_of_parts (h : parts p = parts q) : SameWay p q :=
  ⟨isAbsolute_congr h, way_congr h⟩

theorem parts_of_isAbsolute (h : isAbsolute p) : parts p = .root :: way p := by
  rw [parts_eq, lead, if_pos h, List.singleton_append]

end

theorem Part.text_ofText (s : List Char) : (ofText s).text = s := by
  rw [ofText]
  split
  · next h => exact h.symm
  · split
    · next h => exact h.symm
    · rfl

theorem Part.ofText_eq_here {s : List Char} : ofText s = .here ↔ s = ['.'] := by
  rw [ofText]
  split
  · simp [*]
  · split <;> simp [*]

/-- Neither empty texts between slashes nor dots are steps. -/
theorem way_eq_map (p : String) : way p =
    ((splitAll '/' p.toList).filter fun s => s ≠ [] && s ≠ ['.']).map Part.ofText := by
  have hkeep : ∀ s : List Char, decide (Part.ofText s ≠ .here) = decide (s ≠ ['.']) := fun s =>
    decide_eq_decide.mpr (not_congr Part.ofText_eq_here)
  rw [way, segments, List.filter_map, List.filter_filter]
  refine congrArg _ (List.filter_congr fun s _ => ?_)
  rw [Function.comp_apply, hkeep, Bool.and_comm]

theorem mem_iff_mem_way {c : Char} (hslash : c ≠ '/') (hdot : c ≠ '.') {p : String} :
    c ∈ p.toList ↔ ∃ w ∈ way p, c ∈ w.text := by
  rw [mem_iff_mem_splitAll hslash]
  constructor
  · rintro ⟨s, hs, hc⟩
    have hne : decide (s ≠ []) = true := decide_eq_true (List.ne_nil_of_mem hc)
    have hhere : Part.ofText s ≠ .here := by
      intro he
      have htext := Part.text_ofText s
      rw [he] at htext
      rw [← htext] at hc
      exact hdot (List.mem_singleton.mp hc)
    refine ⟨.ofText s, List.mem_filter.mpr ⟨?_, decide_eq_true hhere⟩, ?_⟩
    · exact List.mem_map_of_mem (List.mem_filter.mpr ⟨hs, hne⟩)
    · rw [Part.text_ofText]
      exact hc
  · rintro ⟨w, hw, hc⟩
    obtain ⟨s, hs, rfl⟩ := List.mem_map.mp (List.mem_filter.mp hw).1
    rw [Part.text_ofText] at hc
    exact ⟨s, (List.mem_filter.mp hs).1, hc⟩

/-! ## One path below another -/

theorem segments_ne_nil {c : Char} (h : c ≠ '/') (s : List Char) : segments (c :: s) ≠ [] := by
  obtain ⟨q, qs, hqs⟩ := List.exists_cons_of_ne_nil (splitAll_ne_nil '/' s)
  rw [segments, splitAll_cons_of_ne h hqs]
  simp

theorem isAbsolute_append {a : String} (h : a ≠ "") (b : String) :
    isAbsolute (a ++ b) = isAbsolute a := by
  have hne : a.toList ≠ [] := fun he => h (String.toList_eq_nil_iff.mp he)
  rw [isAbsolute, isAbsolute, String.toList_append, List.head?_append, List.head?_eq_some_head hne,
    Option.some_or]

theorem exists_of_endsInSlash {p : String} (h : endsInSlash p = true) :
    ∃ s, p.toList = s ++ ['/'] :=
  List.getLast?_eq_some_iff.mp (eq_of_beq h)

section
variable {base p : String}

theorem join_empty (p : String) : join "" p = p := by
  rw [join]
  split <;> rfl

theorem segments_join (h : isAbsolute p = false) :
    segments (join base p).toList = segments base.toList ++ segments p.toList := by
  rw [join, if_neg (by simp [h])]
  split
  · next hbase =>
    rw [hbase]
    rfl
  · split
    · next hslash =>
      obtain ⟨s, hs⟩ := exists_of_endsInSlash hslash
      rw [String.toList_append, hs, List.append_assoc, segments_concat_slash]
      exact segments_append s p.toList
    · rw [String.toList_append, String.toList_append, List.append_assoc]
      exact segments_append base.toList p.toList

theorem way_join (h : isAbsolute p = false) : way (join base p) = way base ++ way p := by
  rw [way, segments_join h, List.filter_append]
  rfl

theorem isAbsolute_join (h : isAbsolute p = false) : isAbsolute (join base p) = isAbsolute base := by
  by_cases hbase : base = ""
  · rw [hbase, join_empty, h]
    rfl
  · have hne : base.toList ≠ [] := fun he => hbase (String.toList_eq_nil_iff.mp he)
    rw [join, if_neg (by simp [h]), if_neg hne]
    split
    · exact isAbsolute_append hbase p
    · rw [String.append_assoc]
      exact isAbsolute_append hbase _

theorem segments_ne_nil_of_relative (h : isAbsolute p = false) (hp : p ≠ "") :
    segments p.toList ≠ [] := by
  cases hs : p.toList with
  | nil => exact absurd (String.toList_eq_nil_iff.mp hs) hp
  | cons c s =>
    refine segments_ne_nil (fun hc => ?_) s
    simp [isAbsolute, hs, hc] at h

theorem lead_join (h : isAbsolute p = false) (hbase : base ≠ "") :
    lead (join base p) = lead base := by
  rw [lead, lead, isAbsolute_join h, segments_join h]
  cases habs : isAbsolute base with
  | true => rfl
  | false =>
    have hfirst := List.head?_eq_some_head (segments_ne_nil_of_relative habs hbase)
    rw [List.head?_append, hfirst, Option.some_or]

theorem parts_join (h : isAbsolute p = false) (hbase : base ≠ "") :
    parts (join base p) = parts base ++ way p := by
  rw [parts_eq, lead_join h hbase, way_join h, ← List.append_assoc, ← parts_eq]

theorem parts_eq_nil : parts p = [] ↔ p = "" := by
  constructor
  · intro h
    refine Classical.byContradiction fun hp => ?_
    have habs : isAbsolute p = false := by
      rw [Bool.eq_false_iff, ne_eq, ← root_mem_parts, h]
      exact List.not_mem_nil
    obtain ⟨q, qs, hqs⟩ := List.exists_cons_of_ne_nil (segments_ne_nil_of_relative habs hp)
    rw [parts_eq, lead, way, if_neg (by simp [habs]), hqs] at h
    by_cases hq : q = .here <;> simp [hq] at h
  · rintro rfl
    rfl

theorem parts_join_congr {base' : String} (h : parts base = parts base') (p : String) :
    parts (join base p) = parts (join base' p) := by
  cases hp : isAbsolute p with
  | true => rw [join, join, if_pos hp, if_pos hp]
  | false =>
    by_cases hbase : base = ""
    · have hbase' : base' = "" := parts_eq_nil.mp (h ▸ parts_eq_nil.mpr hbase)
      rw [hbase, hbase']
    · have hbase' : base' ≠ "" := fun he => hbase (parts_eq_nil.mp (h ▸ parts_eq_nil.mpr he))
      rw [parts_join hp hbase, parts_join hp hbase', h]

end

/-! ## Names of directories -/

/-- A text that can stand between slashes and leads to a directory of that name. -/
def Plain (s : String) : Prop := s ≠ "" ∧ '/' ∉ s.toList ∧ s ≠ "." ∧ s ≠ ".."

instance (s : String) : Decidable (Plain s) := inferInstanceAs (Decidable (_ ∧ _))

theorem Plain.segments {s : String} (h : Plain s) : segments s.toList = [.name s.toList] := by
  obtain ⟨hne, hslash, hdot, hdots⟩ := h
  have hdot' : s.toList ≠ ['.'] := fun he => hdot (String.toList_injective he)
  have hdots' : s.toList ≠ ['.', '.'] := fun he => hdots (String.toList_injective he)
  rw [segments_of_notMem (fun he => hne (String.toList_eq_nil_iff.mp he)) hslash, Part.ofText,
    if_neg hdot', if_neg hdots']

theorem Plain.way {s : String} (h : Plain s) : way s = [.name s.toList] := by
  simp [Path.way, h.segments]

theorem Plain.relative {s : String} (h : Plain s) : isAbsolute s = false := by
  rw [Bool.eq_false_iff]
  intro habs
  exact h.2.1 (List.mem_of_head? (eq_of_beq habs))

theorem parts_join_of_plain {s : String} (h : Plain s) (base : String) :
    parts (join base s) = parts base ++ [.name s.toList] := by
  by_cases hbase : base = ""
  · subst hbase
    have hlead : lead s = [] := by
      rw [lead, h.relative, h.segments]
      rfl
    rw [join_empty, parts_eq, hlead, h.way]
    rfl
  · rw [parts_join h.relative hbase, h.way]

/-! ## Paths from components -/

/-- What can stand in front of a path. -/
def IsLead (l : List Part) : Prop := l = [] ∨ l = [.root] ∨ l = [.here]

theorem isLead_lead (p : String) : IsLead (lead p) := by
  rw [lead]
  split
  · exact .inr (.inl rfl)
  · split
    · exact .inr (.inr rfl)
    · exact .inl rfl

section
variable {l ws : List Part}

theorem ofParts_of_ne_root (h : ∀ p ∈ ws, p ≠ .root) :
    ofParts ws = String.ofList (joinChars (ws.map Part.text)) := by
  cases ws with
  | nil => rfl
  | cons p ws =>
    cases p with
    | root => exact absurd rfl (h .root List.mem_cons_self)
    | here => rfl
    | up => rfl
    | name s => rfl

theorem isAbsolute_joinChars {ss : List (List Char)} (h : ∀ s ∈ ss, s ≠ [] ∧ '/' ∉ s) :
    isAbsolute (String.ofList (joinChars ss)) = false := by
  rw [isAbsolute, String.toList_ofList]
  cases ss with
  | nil => rfl
  | cons s ss =>
    obtain ⟨hne, hslash⟩ := h s List.mem_cons_self
    obtain ⟨c, s, rfl⟩ := List.exists_cons_of_ne_nil hne
    have hc : c ≠ '/' := by
      rintro rfl
      exact hslash List.mem_cons_self
    cases ss <;> simp [joinChars, hc]

theorem isAbsolute_joinChars_text (h : ∀ p ∈ ws, p.Inner) :
    isAbsolute (String.ofList (joinChars (ws.map Part.text))) = false := by
  refine isAbsolute_joinChars fun s hs => ?_
  obtain ⟨p, hp, rfl⟩ := List.mem_map.mp hs
  exact Part.text_of_inner (h p hp)

theorem parts_ofParts (hl : IsLead l) (h : ∀ w ∈ ws, w.Inner ∧ w ≠ .here) :
    parts (ofParts (l ++ ws)) = l ++ ws := by
  have hinner : ∀ w ∈ ws, w.Inner := fun w hw => (h w hw).1
  have hkeep : ws.filter (· ≠ .here) = ws :=
    List.filter_eq_self.mpr fun w hw => decide_eq_true (h w hw).2
  rcases hl with rfl | rfl | rfl
  · have htext := ofParts_of_ne_root fun w hw => (hinner w hw).ne_root
    have hrel : isAbsolute (ofParts ws) = false := htext ▸ isAbsolute_joinChars_text hinner
    have hhead : ws.head? ≠ some .here := fun he => (h _ (List.mem_of_head? he)).2 rfl
    rw [List.nil_append, parts, hrel, htext, String.toList_ofList, segments_joinChars hinner,
      if_neg hhead, hkeep]
    rfl
  · have habs : isAbsolute (ofParts ([.root] ++ ws)) = true := by
      simp [ofParts, isAbsolute]
    rw [parts_of_isAbsolute habs, way]
    simp only [List.singleton_append, ofParts, String.toList_ofList, segments_slash,
      segments_joinChars hinner, hkeep]
  · have hall : ∀ w ∈ Part.here :: ws, w.Inner := List.forall_mem_cons.mpr ⟨trivial, hinner⟩
    have htext := ofParts_of_ne_root fun w hw => (hall w hw).ne_root
    have hrel : isAbsolute (ofParts (.here :: ws)) = false := htext ▸ isAbsolute_joinChars_text hall
    rw [List.singleton_append, parts, hrel, htext, String.toList_ofList, segments_joinChars hall,
      if_pos List.head?_cons, List.filter_cons_of_neg (by simp), hkeep]
    rfl

end

end Path
end UsageGraph
