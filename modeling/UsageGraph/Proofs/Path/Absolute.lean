import UsageGraph.Proofs.Path.Parts

/-! # Absolute and firm paths

* `Path.fromRoot`: the components of a path that starts from a working directory.
* `Path.parts_absolute?`: they are the components of the path once it is absolute.
* `Path.prefix_parts_join`: a relative path below an absolute one.
* `Path.wayFromRoot_of_mem_ancestors`: a path above another one stops on its way.
* `Path.Firm`: a path that ends neither in a slash nor in a dot. Only such a path can lead to a
  file, and what it leads to depends on nothing but its components.
-/

namespace UsageGraph
open Text
set_option autoImplicit false

namespace Path

/-! ## Absolute paths -/

/-- The components of a path that starts from a working directory. -/
def fromRoot (cwd p : String) : List Part :=
  if isAbsolute p then .root :: way p else parts cwd ++ way p

theorem fromRoot_congr {p q : String} (cwd : String) (h : parts p = parts q) :
    fromRoot cwd p = fromRoot cwd q := by
  rw [fromRoot, fromRoot, isAbsolute_congr h, way_congr h]

theorem fromRoot_eq (cwd p : String) : ∃ l ws, fromRoot cwd p = l ++ ws ∧ IsLead l ∧
    (∀ w ∈ ws, w.Inner ∧ w ≠ .here) ∧ (isAbsolute p → l = [.root]) := by
  cases hp : isAbsolute p with
  | true =>
    refine ⟨[.root], way p, ?_, .inr (.inl rfl), fun w hw => inner_of_mem_way hw, fun _ => rfl⟩
    rw [fromRoot, hp, if_pos rfl, List.singleton_append]
  | false =>
    refine ⟨lead cwd, way cwd ++ way p, ?_, isLead_lead cwd, ?_, nofun⟩
    · rw [fromRoot, hp, if_neg Bool.false_ne_true, parts_eq, List.append_assoc]
    · intro w hw
      rcases List.mem_append.mp hw with hw | hw <;> exact inner_of_mem_way hw

theorem filter_parts (p : String) : (parts p).filter (· ≠ .here) =
    if isAbsolute p then .root :: way p else way p := by
  have hway : (way p).filter (· ≠ .here) = way p :=
    List.filter_eq_self.mpr fun q hq => decide_eq_true (inner_of_mem_way hq).2
  rw [parts_eq, List.filter_append, hway, lead]
  split
  · rfl
  · split <;> rfl

theorem isAbsolute_of_doubledRoot {p : String} (h : doubledRoot p = true) : isAbsolute p = true := by
  unfold doubledRoot at h
  split at h
  · cases h
  · next hs => simp [isAbsolute, hs]
  · cases h

theorem parts_slash {p : String} (h : isAbsolute p = true) : parts ("/" ++ p) = parts p := by
  have htext : ("/" ++ p).toList = '/' :: p.toList := String.toList_append
  have habs : isAbsolute ("/" ++ p) = true := by
    rw [isAbsolute, htext]
    rfl
  rw [parts_of_isAbsolute habs, parts_of_isAbsolute h, way, htext, segments_slash]
  rfl

theorem parts_concat_slash {p : String} (h : p ≠ "") : parts (p ++ "/") = parts p := by
  have htext : (p ++ "/").toList = p.toList ++ ['/'] := String.toList_append
  rw [parts, parts, isAbsolute_append h, htext, segments_concat_slash]

theorem isAbsolute_ofParts_root (ws : List Part) : isAbsolute (ofParts (.root :: ws)) = true := by
  simp [ofParts, isAbsolute]

/-- The text of an absolute path before a slash at its end is put back. -/
def spelled (cwd p : String) : String :=
  if doubledRoot p then "/" ++ ofParts (fromRoot cwd p) else ofParts (fromRoot cwd p)

theorem absolute?_of_ne (cwd : String) {p : String} (h : p ≠ "") : absolute? cwd p =
    some (if endsInSlash p && !endsInSlash (spelled cwd p) then spelled cwd p ++ "/"
      else spelled cwd p) := by
  have hne : p.toList ≠ [] := fun he => h (String.toList_eq_nil_iff.mp he)
  have hparts : (if isAbsolute p then (parts p).filter (· ≠ .here)
      else parts cwd ++ (parts p).filter (· ≠ .here)) = fromRoot cwd p := by
    rw [filter_parts, fromRoot]
    cases isAbsolute p <;> rfl
  rw [absolute?, if_neg hne, spelled, ← hparts]

theorem parts_spelled (cwd p : String) : parts (spelled cwd p) = fromRoot cwd p := by
  obtain ⟨l, ws, heq, hl, hws, hroot⟩ := fromRoot_eq cwd p
  have hparts : parts (ofParts (fromRoot cwd p)) = fromRoot cwd p := by
    rw [heq]
    exact parts_ofParts hl hws
  rw [spelled]
  split
  · next hdouble =>
    have habs : isAbsolute (ofParts (fromRoot cwd p)) = true := by
      rw [heq, hroot (isAbsolute_of_doubledRoot hdouble)]
      exact isAbsolute_ofParts_root ws
    rw [parts_slash habs, hparts]
  · exact hparts

theorem endsInSlash_ne_empty {p : String} (h : endsInSlash p = true) : p ≠ "" := by
  rintro rfl
  cases h

/-- The only relative path without components that ends in a slash starts from nowhere. -/
theorem parts_absolute? {cwd p q : String} (h : absolute? cwd p = some q)
    (hcwd : endsInSlash p = true → cwd ≠ "") : parts q = fromRoot cwd p := by
  have hp : p ≠ "" := by
    rintro rfl
    cases h
  rw [absolute?_of_ne cwd hp, Option.some.injEq] at h
  split at h
  · next hslash =>
    have hend : endsInSlash p = true := (Bool.and_eq_true_iff.mp hslash).1
    have hne : spelled cwd p ≠ "" := by
      intro he
      have hnil := parts_spelled cwd p
      rw [he, fromRoot] at hnil
      split at hnil
      · cases hnil
      · exact hcwd hend (parts_eq_nil.mp (List.append_eq_nil_iff.mp hnil.symm).1)
    rw [← h, parts_concat_slash hne, parts_spelled]
  · rw [← h, parts_spelled]

theorem endsInSlash_absolute? {cwd p q : String} (h : absolute? cwd p = some q)
    (hslash : endsInSlash p = true) : endsInSlash q = true := by
  rw [absolute?_of_ne cwd (endsInSlash_ne_empty hslash), hslash, Option.some.injEq] at h
  split at h
  · rw [← h, endsInSlash, String.toList_append]
    simp
  · next hend =>
    rw [← h]
    simpa using hend

/-- The steps of a path that starts from a working directory. -/
def wayFromRoot (cwd p : String) : List Part := if isAbsolute p then way p else way cwd ++ way p

theorem way_absolute? {cwd p q : String} (h : absolute? cwd p = some q)
    (hcwd : endsInSlash p = true → cwd ≠ "") : way q = wayFromRoot cwd p := by
  rw [way_eq_filter, parts_absolute? h hcwd, fromRoot, wayFromRoot]
  split
  · rw [List.filter_cons_of_neg (by simp), filter_way]
  · rw [List.filter_append, filter_way, ← way_eq_filter]

theorem isAbsolute_absolute? {cwd p q : String} (h : absolute? cwd p = some q)
    (hcwd : isAbsolute cwd) : isAbsolute q := by
  have hne : cwd ≠ "" := by
    rintro rfl
    cases hcwd
  rw [← root_mem_parts, parts_absolute? h fun _ => hne, fromRoot]
  split
  · exact List.mem_cons_self
  · exact List.mem_append_left _ (root_mem_parts.mpr hcwd)

/-- An absolute path starts from nowhere else. -/
theorem absolute?_of_isAbsolute {p : String} (h : isAbsolute p) (cwd cwd' : String) :
    absolute? cwd p = absolute? cwd' p := by
  have hne : p ≠ "" := by
    rintro rfl
    cases h
  have hspelled : spelled cwd p = spelled cwd' p := by
    rw [spelled, spelled, fromRoot, fromRoot, if_pos h, if_pos h]
  rw [absolute?_of_ne cwd hne, absolute?_of_ne cwd' hne, hspelled]

theorem parts_of_absolute? {cwd p q : String} (h : absolute? cwd p = some q) (hp : isAbsolute p) :
    parts q = parts p := by
  rw [absolute?_of_isAbsolute hp cwd "/"] at h
  rw [parts_absolute? h fun _ => by decide, fromRoot, if_pos hp, parts_of_isAbsolute hp]

/-! ## Paths below an absolute path -/

section
variable {base : String} (hbase : isAbsolute base)
include hbase

theorem prefix_parts_join {p : String} (hp : isAbsolute p = false) :
    isAbsolute (join base p) ∧ parts base <+: parts (join base p) := by
  have hne : base ≠ "" := by
    rintro rfl
    cases hbase
  rw [isAbsolute_join hp, parts_join hp hne]
  exact ⟨hbase, List.prefix_append _ _⟩

theorem prefix_parts_foldl {ps : List String} (hps : ∀ p ∈ ps, isAbsolute p = false) :
    isAbsolute (ps.foldl join base) ∧ parts base <+: parts (ps.foldl join base) := by
  induction ps generalizing base with
  | nil => exact ⟨hbase, List.prefix_refl _⟩
  | cons p ps ih =>
    obtain ⟨hp, hps⟩ := List.forall_mem_cons.mp hps
    obtain ⟨habs, hprefix⟩ := prefix_parts_join hbase hp
    obtain ⟨habs', hprefix'⟩ := ih habs hps
    exact ⟨habs', hprefix.trans hprefix'⟩

end

/-! ## Firm paths -/

/-- What stands behind the last slash. -/
def leaf (s : List Char) : List Char := (splitAll '/' s).getLast (splitAll_ne_nil '/' s)

/-- The path does not end in a slash or in a dot. -/
def Firm (p : String) : Prop := leaf p.toList ≠ [] ∧ leaf p.toList ≠ ['.']

instance (p : String) : Decidable (Firm p) := inferInstanceAs (Decidable (_ ∧ _))

theorem leaf_append (a b : List Char) : leaf (a ++ '/' :: b) = leaf b := by
  simp only [leaf, splitAll_append]
  rw [List.getLast_append_of_ne_nil _ (splitAll_ne_nil '/' b)]

theorem leaf_slash (s : List Char) : leaf ('/' :: s) = leaf s := leaf_append [] s

theorem leaf_of_notMem {s : List Char} (h : '/' ∉ s) : leaf s = s := by
  simp [leaf, splitAll_of_notMem h]

theorem notMem_leaf (s : List Char) : '/' ∉ leaf s :=
  notMem_of_mem_splitAll (List.getLast_mem (splitAll_ne_nil '/' s))

theorem eq_leaf_or_exists (s : List Char) : s = leaf s ∨ ∃ dir, s = dir ++ '/' :: leaf s := by
  by_cases hs : '/' ∈ s
  · obtain ⟨a, b, hab, ha⟩ := List.eq_append_cons_of_mem (List.mem_reverse.mpr hs)
    have hsplit : s = b.reverse ++ '/' :: a.reverse := by
      rw [← List.reverse_reverse s, hab]
      simp
    have hleaf : leaf s = a.reverse := by
      rw [hsplit, leaf_append, leaf_of_notMem (by simpa using ha)]
    exact .inr ⟨b.reverse, by rw [hleaf]; exact hsplit⟩
  · exact .inl (leaf_of_notMem hs).symm

theorem mem_of_mem_leaf {c : Char} {s : List Char} (h : c ∈ leaf s) : c ∈ s := by
  rcases eq_leaf_or_exists s with hs | ⟨dir, hs⟩
  · rwa [hs]
  · rw [hs]
    exact List.mem_append_right _ (List.mem_cons_of_mem _ h)

/-- What is put behind a path without a slash goes into its last name. -/
theorem leaf_append_of_notMem (s : List Char) {x : List Char} (hx : '/' ∉ x) :
    leaf (s ++ x) = leaf s ++ x := by
  have hmem : '/' ∉ leaf s ++ x := by
    rw [List.mem_append, not_or]
    exact ⟨notMem_leaf s, hx⟩
  rcases eq_leaf_or_exists s with hs | ⟨dir, hs⟩
  · rw [← hs] at hmem ⊢
    exact leaf_of_notMem hmem
  · have hlong : s ++ x = dir ++ '/' :: (leaf s ++ x) := by
      conv => lhs; rw [hs]
      rw [List.append_assoc, List.cons_append]
    rw [hlong, leaf_append, leaf_of_notMem hmem]

theorem firm_append {p x : String} (hx : '/' ∉ x.toList) (hlong : 2 ≤ x.toList.length) :
    Firm (p ++ x) := by
  rw [Firm, String.toList_append, leaf_append_of_notMem _ hx]
  refine ⟨fun hnil => ?_, fun hdot => ?_⟩
  · have := congrArg List.length hnil
    simp only [List.length_append, List.length_nil] at this
    omega
  · have := congrArg List.length hdot
    simp only [List.length_append, List.length_cons, List.length_nil] at this
    omega

theorem Firm.not_endsInSlash {p : String} (h : Firm p) : endsInSlash p = false := by
  rw [Bool.eq_false_iff]
  intro hslash
  obtain ⟨s, hs⟩ := exists_of_endsInSlash hslash
  exact h.1 (by rw [hs, leaf_append]; rfl)

theorem Firm.ne_empty {p : String} (h : Firm p) : p ≠ "" := by
  rintro rfl
  exact h.1 rfl

theorem Firm.join {p : String} (h : Firm p) (base : String) : Firm (join base p) := by
  rw [Path.join]
  split
  · exact h
  · split
    · exact h
    · split
      · next hslash =>
        obtain ⟨s, hs⟩ := exists_of_endsInSlash hslash
        have htext : (base ++ p).toList = s ++ '/' :: p.toList := by
          rw [String.toList_append, hs, List.append_assoc]
          rfl
        rw [Firm, htext, leaf_append]
        exact h
      · have htext : (base ++ "/" ++ p).toList = base.toList ++ '/' :: p.toList := by
          rw [String.toList_append, String.toList_append, List.append_assoc]
          rfl
        rw [Firm, htext, leaf_append]
        exact h

theorem getLast?_segments {s : List Char} (h : leaf s ≠ []) :
    (segments s).getLast? = some (.ofText (leaf s)) := by
  have hlast : splitAll '/' s = (splitAll '/' s).dropLast ++ [leaf s] :=
    (List.dropLast_concat_getLast (splitAll_ne_nil '/' s)).symm
  have hkeep : [leaf s].filter (· ≠ []) = [leaf s] :=
    List.filter_eq_self.mpr fun x hx => decide_eq_true (List.mem_singleton.mp hx ▸ h)
  rw [segments, hlast, List.filter_append, hkeep, List.map_append]
  exact List.getLast?_concat

theorem Firm.last_ne_here {p : String} (h : Firm p) :
    (segments p.toList).getLast? ≠ some .here := by
  rw [getLast?_segments h.1, Part.ofText, if_neg h.2]
  split <;> simp

/-- A path that is not firm ends in a slash or in a dot. -/
theorem of_not_firm {p : String} (h : ¬Firm p) : p = "" ∨ endsInSlash p = true ∨
    (segments p.toList).getLast? = some .here := by
  by_cases hleaf : leaf p.toList = []
  · rcases eq_leaf_or_exists p.toList with hp | ⟨dir, hp⟩
    · exact .inl (String.toList_eq_nil_iff.mp (hp.trans hleaf))
    · rw [hleaf] at hp
      exact .inr (.inl (by simp [endsInSlash, hp]))
  · have hdot : leaf p.toList = ['.'] := Classical.byContradiction fun hdot => h ⟨hleaf, hdot⟩
    refine .inr (.inr ?_)
    rw [getLast?_segments hleaf, hdot]
    rfl

theorem Firm.way_ne_nil {p : String} (h : Firm p) : way p ≠ [] := by
  intro hnil
  have hlast := getLast?_segments h.1
  have hmem := List.mem_of_getLast? hlast
  have hhere : Part.ofText (leaf p.toList) ≠ .here := fun he => h.last_ne_here (he ▸ hlast)
  exact List.filter_eq_nil_iff.mp hnil _ hmem (decide_eq_true hhere)

theorem leaf_joinChars {ss : List (List Char)} (hne : ss ≠ []) (h : ∀ s ∈ ss, '/' ∉ s) :
    leaf (joinChars ss) = ss.getLast hne := by
  have hpieces : splitAll '/' (joinChars ss) = ss := splitAll_intercalate h hne
  simp only [leaf, hpieces]

theorem leaf_joinChars_text {ps : List Part} (hne : ps ≠ []) (h : ∀ p ∈ ps, p.Inner) :
    leaf (joinChars (ps.map Part.text)) = (ps.getLast hne).text := by
  have hslash : ∀ s ∈ ps.map Part.text, '/' ∉ s := by
    intro s hs
    obtain ⟨q, hq, rfl⟩ := List.mem_map.mp hs
    exact (Part.text_of_inner (h q hq)).2
  rw [leaf_joinChars (fun he => hne (List.map_eq_nil_iff.mp he)) hslash, List.getLast_map]

theorem Part.text_ne_dot {p : Part} (h : p.Inner) (hne : p ≠ .here) : p.text ≠ ['.'] := by
  cases p with
  | root => exact h.elim
  | here => exact absurd rfl hne
  | up => decide
  | name s => exact h.2.2.1

theorem firm_ofParts {l ws : List Part} (hl : IsLead l) (h : ∀ w ∈ ws, w.Inner ∧ w ≠ .here)
    (hne : ws ≠ []) : Firm (ofParts (l ++ ws)) := by
  obtain ⟨hinner, hhere⟩ := h _ (List.getLast_mem hne)
  have hfirm : (ws.getLast hne).text ≠ [] ∧ (ws.getLast hne).text ≠ ['.'] :=
    ⟨(Part.text_of_inner hinner).1, Part.text_ne_dot hinner hhere⟩
  have hleaf := leaf_joinChars_text hne fun w hw => (h w hw).1
  rcases hl with rfl | rfl | rfl
  · have htext := ofParts_of_ne_root fun w hw => (h w hw).1.ne_root
    rw [List.nil_append, Firm, htext, String.toList_ofList, hleaf]
    exact hfirm
  · rw [Firm, List.singleton_append, ofParts, String.toList_ofList, leaf_slash, hleaf]
    exact hfirm
  · have hall : ∀ w ∈ Part.here :: ws, w.Inner :=
      List.forall_mem_cons.mpr ⟨trivial, fun w hw => (h w hw).1⟩
    have htext := ofParts_of_ne_root fun w hw => (hall w hw).ne_root
    rw [List.singleton_append, Firm, htext, String.toList_ofList,
      leaf_joinChars_text (List.cons_ne_nil _ _) hall, List.getLast_cons hne]
    exact hfirm

theorem firm_absolute? {cwd p q : String} (h : absolute? cwd p = some q)
    (hslash : endsInSlash p = false) (hway : way q ≠ []) : Firm q := by
  have hp : p ≠ "" := by
    rintro rfl
    cases h
  rw [absolute?_of_ne cwd hp, hslash, Bool.false_and, if_neg Bool.false_ne_true,
    Option.some.injEq] at h
  obtain ⟨l, ws, heq, hl, hws, -⟩ := fromRoot_eq cwd p
  have hparts := parts_spelled cwd p
  rw [h, heq] at hparts
  have hne : ws ≠ [] := by
    rintro rfl
    refine hway ?_
    rw [way_eq_filter, hparts, List.append_nil]
    rcases hl with rfl | rfl | rfl <;> rfl
  have hfirm := firm_ofParts hl hws hne
  rw [← heq] at hfirm
  rw [← h, spelled]
  split
  · have htext : ("/" ++ ofParts (fromRoot cwd p)).toList =
      '/' :: (ofParts (fromRoot cwd p)).toList := String.toList_append
    rw [Firm, htext, leaf_slash]
    exact hfirm
  · exact hfirm

/-- A firm path can be made absolute, and stays firm. -/
theorem Firm.exists_absolute? {p : String} (h : Firm p) (cwd : String) :
    ∃ q, absolute? cwd p = some q ∧ Firm q ∧ parts q = fromRoot cwd p := by
  have hslash := h.not_endsInSlash
  have habs := absolute?_of_ne cwd h.ne_empty
  have hcwd : endsInSlash p = true → cwd ≠ "" := fun hend => by
    rw [hslash] at hend
    cases hend
  refine ⟨_, habs, firm_absolute? habs hslash ?_, parts_absolute? habs hcwd⟩
  rw [way_absolute? habs hcwd, wayFromRoot]
  split
  · exact h.way_ne_nil
  · exact fun hnil => h.way_ne_nil (List.append_eq_nil_iff.mp hnil).2

/-! ## Paths above a path -/

section
variable {l ws : List Part}

theorem way_ofParts (hl : IsLead l) (h : ∀ w ∈ ws, w.Inner ∧ w ≠ .here) :
    way (ofParts (l ++ ws)) = ws := by
  have hkeep : ws.filter (fun q => decide (q ≠ .root ∧ q ≠ .here)) = ws :=
    List.filter_eq_self.mpr fun w hw => decide_eq_true ⟨(h w hw).1.ne_root, (h w hw).2⟩
  rw [way_eq_filter, parts_ofParts hl h, List.filter_append, hkeep]
  rcases hl with rfl | rfl | rfl <;> rfl

theorem isAbsolute_ofParts (hl : IsLead l) (h : ∀ w ∈ ws, w.Inner ∧ w ≠ .here) :
    isAbsolute (ofParts (l ++ ws)) = true ↔ .root ∈ l := by
  rw [← root_mem_parts, parts_ofParts hl h, List.mem_append, or_iff_left]
  exact fun hroot => (h _ hroot).1

theorem isLead_take (p : String) (n : Nat) : IsLead ((lead p).take n) := by
  cases n with
  | zero => exact .inl rfl
  | succ n =>
    rcases isLead_lead p with hl | hl | hl
    · rw [hl]
      exact .inl List.take_nil
    · rw [hl]
      exact .inr (.inl (by rw [List.take_succ_cons, List.take_nil]))
    · rw [hl]
      exact .inr (.inr (by rw [List.take_succ_cons, List.take_nil]))

theorem root_mem_lead {p : String} : .root ∈ lead p ↔ isAbsolute p = true := by
  rw [← root_mem_parts, parts_eq, List.mem_append, or_iff_left]
  exact fun hroot => (inner_of_mem_way hroot).1

/-- The paths above an absolute path are the root and what is below it. -/
theorem exists_of_mem_ancestors {path p : String} (h : p ∈ ancestors path) :
    p = path ∨ ∃ n, p = ofParts ((parts path).take n) ∧ (isAbsolute path = true → n ≠ 0) := by
  rw [ancestors, List.mem_cons] at h
  refine h.imp_right fun h => ?_
  split at h
  · next habs =>
    obtain ⟨k, hk⟩ : ∃ k, (parts path).length = k + 1 :=
      ⟨(way path).length, by rw [parts_of_isAbsolute habs, List.length_cons]⟩
    rw [hk, List.range_succ_eq_map, List.reverse_cons, List.map_append, List.map_singleton,
      List.dropLast_concat] at h
    obtain ⟨n, hn, rfl⟩ := List.mem_map.mp h
    obtain ⟨m, -, rfl⟩ := List.mem_map.mp (List.mem_reverse.mp hn)
    exact ⟨m + 1, rfl, fun _ => Nat.succ_ne_zero m⟩
  · next habs =>
    obtain ⟨n, -, rfl⟩ := List.mem_map.mp h
    exact ⟨n, rfl, fun h => absurd h habs⟩

/-- A path above another one stops on its way. -/
theorem wayFromRoot_of_mem_ancestors {path p : String} (h : p ∈ ancestors path) (cwd : String) :
    wayFromRoot cwd p <+: wayFromRoot cwd path := by
  obtain rfl | ⟨n, rfl, hn⟩ := exists_of_mem_ancestors h
  · exact List.prefix_refl _
  · have hinner : ∀ w ∈ (way path).take (n - (lead path).length), w.Inner ∧ w ≠ .here :=
      fun w hw => inner_of_mem_way (List.mem_of_mem_take hw)
    have hroot : .root ∈ (lead path).take n ↔ isAbsolute path = true := by
      constructor
      · exact fun hmem => root_mem_lead.mp (List.mem_of_mem_take hmem)
      · intro habs
        obtain ⟨m, rfl⟩ := Nat.exists_eq_succ_of_ne_zero (hn habs)
        rw [lead, if_pos habs, List.take_succ_cons]
        exact List.mem_cons_self
    have habs : isAbsolute (ofParts ((parts path).take n)) = isAbsolute path := by
      rw [Bool.eq_iff_iff, parts_eq, List.take_append,
        isAbsolute_ofParts (isLead_take path n) hinner]
      exact hroot
    have hway : way (ofParts ((parts path).take n)) <+: way path := by
      rw [parts_eq, List.take_append, way_ofParts (isLead_take path n) hinner]
      exact List.take_prefix _ _
    rw [wayFromRoot, wayFromRoot, habs]
    split
    · exact hway
    · exact (List.prefix_append_right_inj _).mpr hway

end

end Path
end UsageGraph
