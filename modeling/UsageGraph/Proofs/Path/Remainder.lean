import UsageGraph.Proofs.FileTree.Places

/-! # What is left of a path behind a base

* `Path.remainder`: the components of a path behind those of a base, if it starts with them.
* `Path.place_eq_foldl_remainder`: they lead from the base to the place of the path.
* `Path.length_foldl_climb_lt`: a step up or to the root makes the way shorter than its names.
* `Path.Straight`: a path that stays below a base without a step up.
* `Path.Listed`: a relative path that is made of names.
-/

namespace UsageGraph
set_option autoImplicit false

namespace Path

/-! ## Components behind a base -/

def Part.isName : Part → Bool
  | name _ => true
  | _ => false

theorem Part.isName_iff {w : Part} : w.isName = true ↔ ∃ s, w = .name s := by
  cases w <;> simp [isName]

/-- The components of `p` behind those of `base`; all of them if it does not start with these. -/
def remainder (base p : String) : List Part := (stripPrefix? base p).getD (parts p)

theorem stripParts?_append (bs ps : List Part) : stripParts? bs (bs ++ ps) = some ps := by
  induction bs with
  | nil => rfl
  | cons b bs ih => rw [List.cons_append, stripParts?, if_pos rfl, ih]

theorem stripParts?_eq_some {bs ps rest : List Part} (h : stripParts? bs ps = some rest) :
    ps = bs ++ rest := by
  induction bs generalizing ps with
  | nil => exact Option.some.inj h
  | cons b bs ih =>
    cases ps with
    | nil => cases h
    | cons p ps =>
      rw [stripParts?] at h
      split at h
      · next hb => rw [hb, ih h, List.cons_append]
      · cases h

theorem parts_eq_remainder {base p : String} (h : startsWith base p = true) :
    parts p = parts base ++ remainder base p := by
  obtain ⟨rest, hrest⟩ := Option.isSome_iff_exists.mp h
  rw [remainder, hrest]
  exact stripParts?_eq_some hrest

theorem remainder_of_not {base p : String} (h : startsWith base p = false) :
    remainder base p = parts p := by
  have hnone : stripPrefix? base p = none := by simpa [startsWith] using h
  rw [remainder, hnone]
  rfl

theorem inner_of_name_mem_parts {p : String} {s : List Char} (h : .name s ∈ parts p) :
    (Part.name s).Inner := by
  rw [parts_eq, List.mem_append] at h
  rcases h with h | h
  · rw [lead] at h
    split at h
    · simp at h
    · split at h <;> simp at h
  · exact (inner_of_mem_way h).1

theorem mem_parts_of_mem_remainder {base p : String} {w : Part} (h : w ∈ remainder base p) :
    w ∈ parts p := by
  cases hstarts : startsWith base p with
  | true =>
    rw [parts_eq_remainder hstarts]
    exact List.mem_append_right _ h
  | false => rwa [remainder_of_not hstarts] at h

theorem inner_of_mem_names {base p : String} {w : Part}
    (h : w ∈ (remainder base p).filter Part.isName) : w.Inner := by
  obtain ⟨hmem, hname⟩ := List.mem_filter.mp h
  obtain ⟨s, rfl⟩ := Part.isName_iff.mp hname
  exact inner_of_name_mem_parts (mem_parts_of_mem_remainder hmem)

theorem namesOnly_eq (ps : List Part) :
    namesOnly ps = String.ofList (joinChars ((ps.filter Part.isName).map Part.text)) := by
  refine congrArg (fun ss => String.ofList (joinChars ss)) ?_
  induction ps with
  | nil => rfl
  | cons p ps ih =>
    cases p with
    | name s => exact congrArg (s :: ·) ih
    | root => exact ih
    | here => exact ih
    | up => exact ih

theorem namesOnly_parts (p : String) : namesOnly (parts p) = namesOnly (way p) := by
  have hnames : (lead p).filter Part.isName = [] := by
    rcases isLead_lead p with h | h | h <;> rw [h] <;> rfl
  rw [namesOnly_eq, namesOnly_eq, parts_eq, List.filter_append, hnames, List.nil_append]

theorem remainder_below {base : String} (h : isAbsolute base) (p : String) :
    remainder base (base ++ "/" ++ p) = way p := by
  have hne : base ≠ "" := by
    rintro rfl
    cases h
  have habs : isAbsolute (base ++ "/" ++ p) := by
    rw [String.append_assoc, isAbsolute_append hne, h]
  have htext : (base ++ "/" ++ p).toList = base.toList ++ '/' :: p.toList := by
    rw [String.toList_append, String.toList_append, List.append_assoc]
    rfl
  have hparts : parts (base ++ "/" ++ p) = parts base ++ way p := by
    rw [parts_of_isAbsolute habs, parts_of_isAbsolute h, way, htext, segments_append,
      List.filter_append]
    rfl
  rw [remainder, stripPrefix?, hparts, stripParts?_append]
  rfl

/-! ## Places -/

/-- A path that starts from an absolute directory goes its components one by one. A root among them
leads away from the directory. -/
theorem place_eq_foldl_parts {base : String} (h : isAbsolute base) (p : String) :
    place base p = (parts p).foldl climb (place base base) := by
  rw [← foldl_climb_filter _ (parts p), filter_parts, place_eq, wayFromRoot, place_eq, wayFromRoot,
    if_pos h]
  cases isAbsolute p with
  | true => rfl
  | false => rw [if_neg Bool.false_ne_true, if_neg Bool.false_ne_true, List.foldl_append]

theorem place_eq_foldl_remainder {base : String} (h : isAbsolute base) (p : String) :
    place base p = (remainder base p).foldl climb (place base base) := by
  rw [place_eq_foldl_parts h]
  cases hstarts : startsWith base p with
  | true => rw [parts_eq_remainder hstarts, List.foldl_append, ← place_eq_foldl_parts h]
  | false => rw [remainder_of_not hstarts]

/-- Only a name leads further down. -/
theorem length_climb_le (at_ : Location) (w : Part) :
    (climb at_ w).length ≤ at_.length + ([w].filter Part.isName).length := by
  cases w <;> simp [climb, Part.isName, List.filter_cons]

theorem length_climb_lt {at_ : Location} (h : at_ ≠ []) {w : Part} (hw : w = .root ∨ w = .up) :
    (climb at_ w).length < at_.length := by
  have hpos : 0 < at_.length := List.length_pos_iff.mpr h
  rcases hw with rfl | rfl
  · exact hpos
  · rw [climb, List.length_dropLast]
    omega

theorem climb_ne_nil {at_ : Location} (h : at_ ≠ []) {w : Part} (hw : ¬(w = .root ∨ w = .up)) :
    climb at_ w ≠ [] := by
  cases w with
  | root => exact absurd (.inl rfl) hw
  | here => exact h
  | up => exact absurd (.inr rfl) hw
  | name s => exact List.concat_ne_nil _ _

theorem length_filter_cons (w : Part) (ws : List Part) : ((w :: ws).filter Part.isName).length =
    ([w].filter Part.isName).length + (ws.filter Part.isName).length := by
  rw [← List.singleton_append, List.filter_append, List.length_append]

theorem length_foldl_climb_le (ws : List Part) (at_ : Location) :
    (ws.foldl climb at_).length ≤ at_.length + (ws.filter Part.isName).length := by
  induction ws generalizing at_ with
  | nil => exact Nat.le_refl _
  | cons w ws ih =>
    have hstep := length_climb_le at_ w
    have hrest := ih (climb at_ w)
    rw [List.foldl_cons, length_filter_cons]
    omega

theorem length_foldl_climb_lt {ws : List Part} {at_ : Location} (hne : at_ ≠ [])
    (hws : .root ∈ ws ∨ .up ∈ ws) :
    (ws.foldl climb at_).length < at_.length + (ws.filter Part.isName).length := by
  induction ws generalizing at_ with
  | nil => rcases hws with h | h <;> cases h
  | cons w ws ih =>
    rw [List.foldl_cons, length_filter_cons]
    -- After the step that loses a level no name makes up for it. Before it the place stays below
    -- the root, where there is a level to lose.
    by_cases hw : w = .root ∨ w = .up
    · have hstep := length_climb_lt hne hw
      have hrest := length_foldl_climb_le ws (climb at_ w)
      omega
    · have hstep := length_climb_le at_ w
      have htail : .root ∈ ws ∨ .up ∈ ws := by
        rw [not_or] at hw
        rw [List.mem_cons, List.mem_cons] at hws
        exact hws.imp (·.resolve_left (Ne.symm hw.1)) (·.resolve_left (Ne.symm hw.2))
      have hrest := ih (climb_ne_nil hne hw) htail
      omega

/-! ## Straight paths -/

/-- The path is relative or starts with the components of the base, and it never goes up from
there. -/
def Straight (base p : String) : Prop :=
  (isAbsolute p = false ∨ startsWith base p = true) ∧ .up ∉ remainder base p

instance (base p : String) : Decidable (Straight base p) := inferInstanceAs (Decidable (_ ∧ _))

theorem not_startsWith_of_relative {base p : String} (h : isAbsolute base)
    (hp : isAbsolute p = false) : startsWith base p = false := by
  rw [Bool.eq_false_iff]
  intro hstarts
  have hroot : Part.root ∈ parts p := by
    rw [parts_eq_remainder hstarts]
    exact List.mem_append_left _ (root_mem_parts.mpr h)
  rw [root_mem_parts, hp] at hroot
  cases hroot

/-- A root is left exactly of an absolute path that leads away from the base. -/
theorem root_mem_remainder {base p : String} (h : isAbsolute base) :
    .root ∈ remainder base p ↔ ¬(isAbsolute p = false ∨ startsWith base p = true) := by
  cases hstarts : startsWith base p with
  | true =>
    have hparts := parts_eq_remainder hstarts
    have habs : isAbsolute p := by
      rw [← root_mem_parts, hparts]
      exact List.mem_append_left _ (root_mem_parts.mpr h)
    rw [parts_of_isAbsolute h, parts_of_isAbsolute habs, List.cons_append, List.cons.injEq] at hparts
    have hway : .root ∉ way p := fun hmem => (inner_of_mem_way hmem).1
    rw [hparts.2, List.mem_append, not_or] at hway
    simp [hway.2]
  | false =>
    rw [remainder_of_not hstarts, root_mem_parts]
    simp

theorem straight_iff {base p : String} (h : isAbsolute base) :
    Straight base p ↔ .root ∉ remainder base p ∧ .up ∉ remainder base p := by
  rw [Straight, root_mem_remainder h, Classical.not_not]

/-! ## Listed paths -/

/-- Names with slashes between them. -/
def Listed (p : String) : Prop :=
  ∃ names : List String, (∀ n ∈ names, Plain n) ∧ p = Text.join "/" names

theorem Plain.inner {s : String} (h : Plain s) : (Part.name s.toList).Inner :=
  inner_of_mem_segments (h.segments ▸ List.mem_singleton_self _)

theorem toList_join (names : List String) : (Text.join "/" names).toList =
    joinChars (names.map String.toList) := by
  rw [Text.join, String.toList_intercalate]
  rfl

/-- Names with slashes between them are steps of a relative path. -/
theorem way_join_names {names : List String} (h : ∀ n ∈ names, Plain n) :
    isAbsolute (Text.join "/" names) = false ∧
      way (Text.join "/" names) = names.map fun n => Part.name n.toList := by
  let ws := names.map fun n => Part.name n.toList
  have hinner : ∀ w ∈ ws, w.Inner := by
    intro w hw
    obtain ⟨n, hn, rfl⟩ := List.mem_map.mp hw
    exact (h n hn).inner
  have hhere : ws.filter (· ≠ .here) = ws := by
    refine List.filter_eq_self.mpr fun w hw => ?_
    obtain ⟨n, -, rfl⟩ := List.mem_map.mp hw
    rfl
  have hchars : (Text.join "/" names).toList = joinChars (ws.map Part.text) := by
    rw [toList_join, List.map_map]
    rfl
  refine ⟨?_, ?_⟩
  · rw [← String.ofList_toList (s := Text.join "/" names), hchars]
    exact isAbsolute_joinChars_text hinner
  · rw [way, hchars, segments_joinChars hinner, hhere]

theorem Listed.namesOnly_way {p : String} (h : Listed p) :
    isAbsolute p = false ∧ namesOnly (way p) = p := by
  obtain ⟨names, hnames, rfl⟩ := h
  obtain ⟨hrelative, hway⟩ := way_join_names hnames
  have hisName : (names.map fun n => Part.name n.toList).filter Part.isName =
      names.map fun n => Part.name n.toList := by
    refine List.filter_eq_self.mpr fun w hw => ?_
    obtain ⟨n, -, rfl⟩ := List.mem_map.mp hw
    rfl
  refine ⟨hrelative, ?_⟩
  rw [hway, namesOnly_eq, hisName, List.map_map, ← String.ofList_toList (s := Text.join "/" names),
    toList_join]
  rfl

theorem way_here (p : String) : way ("./" ++ p) = way p := by
  have htext : ("./" ++ p).toList = ['.'] ++ '/' :: p.toList := String.toList_append
  rw [way, htext, segments_append, List.filter_append]
  rfl

end Path
end UsageGraph
