import UsageGraph.FileTree.Access
import UsageGraph.Proofs.Path.Absolute

/-! # Where paths lead

* `Path.place`: the place that a path names, whether or not anything is there. Dots count for
  nothing, and two dots take back the last name.
* `FileTree.locate_eq_place`: a path that leads somewhere leads to its place.
* `FileTree.locate_of_sameWay`: firm paths that differ in dots and slashes at most lead to the same
  place or fail alike.
* `FileTree.firm_of_readText`: only a firm path can be read.
* `FileTree.get?_erase_below`, `FileTree.get?_erase_elsewhere`: what is gone and what is left.
* `FileTree.get?_of_removeDirectory`: a directory that is removed takes away nothing from elsewhere.
-/

namespace UsageGraph
set_option autoImplicit false

theorem lookup_filter {κ β : Type} [BEq κ] [LawfulBEq κ] (keep : κ → Bool) (es : List (κ × β))
    (key : κ) :
    (es.filter fun p => keep p.1).lookup key = if keep key then es.lookup key else none := by
  induction es with
  | nil => simp
  | cons e es ih =>
    obtain ⟨k, x⟩ := e
    by_cases hkey : key = k
    · subst hkey
      by_cases hk : keep key = true
      · simp [hk]
      · simp [hk, ih]
    · have hbeq : (key == k) = false := beq_false_of_ne hkey
      by_cases hk : keep k = true
      · simp [hk, List.lookup_cons, hbeq, ih]
      · simp [hk, List.lookup_cons, hbeq, ih]

theorem mem_of_lookup {κ β : Type} [BEq κ] [LawfulBEq κ] {es : List (κ × β)} {key : κ} {x : β}
    (h : es.lookup key = some x) : (key, x) ∈ es := by
  obtain ⟨before, after, rfl, -⟩ := List.lookup_eq_some_iff.mp h
  exact List.mem_append_right _ List.mem_cons_self

/-! ## Places -/

namespace Path

/-- Where a step leads if nothing stands in its way. -/
def climb (at_ : Location) : Part → Location
  | .root => []
  | .here => at_
  | .up => at_.dropLast
  | .name s => at_ ++ [String.ofList s]

/-- The place of a path that starts from a working directory. -/
def place (cwd p : String) : Location :=
  (if isAbsolute p then segments p.toList
    else segments cwd.toList ++ segments p.toList).foldl climb []

theorem foldl_climb_filter (at_ : Location) (ps : List Part) :
    (ps.filter (· ≠ .here)).foldl climb at_ = ps.foldl climb at_ := by
  induction ps generalizing at_ with
  | nil => rfl
  | cons p ps ih =>
    by_cases hp : p = .here
    · subst hp
      rw [List.filter_cons_of_neg (by simp), ih]
      rfl
    · rw [List.filter_cons_of_pos (by simpa using hp), List.foldl_cons, List.foldl_cons, ih]

theorem place_eq (cwd p : String) : place cwd p = (wayFromRoot cwd p).foldl climb [] := by
  rw [place, wayFromRoot, ← foldl_climb_filter]
  cases isAbsolute p with
  | true => rfl
  | false =>
    rw [if_neg Bool.false_ne_true, if_neg Bool.false_ne_true, List.filter_append]
    rfl

theorem foldl_climb_names {ws : List Part} (h : ∀ w ∈ ws, ∃ s, w = .name s) (at_ : Location) :
    ws.foldl climb at_ = at_ ++ ws.map fun w => String.ofList w.text := by
  induction ws generalizing at_ with
  | nil => exact (List.append_nil _).symm
  | cons w ws ih =>
    obtain ⟨s, rfl⟩ := h w List.mem_cons_self
    rw [List.foldl_cons, ih fun x hx => h x (List.mem_cons_of_mem _ hx), climb, List.map_cons,
      List.append_assoc, List.singleton_append]
    rfl

/-- An absolute path has the same place from everywhere. -/
theorem place_of_isAbsolute {p : String} (h : isAbsolute p) (cwd cwd' : String) :
    place cwd p = place cwd' p := by
  rw [place, place, if_pos h, if_pos h]

theorem place_join {p : String} (cwd base : String) (h : isAbsolute p = false) :
    place cwd (join base p) = (way p).foldl climb (place cwd base) := by
  rw [place_eq, place_eq, wayFromRoot, wayFromRoot, isAbsolute_join h, way_join h]
  split
  · rw [List.foldl_append]
  · rw [← List.append_assoc, List.foldl_append]

/-- To make a path absolute does not change its place. -/
theorem place_absolute? {cwd p q : String} (h : absolute? cwd p = some q) (hcwd : isAbsolute cwd) :
    place cwd q = place cwd p := by
  have hne : cwd ≠ "" := by
    rintro rfl
    cases hcwd
  rw [place_eq, place_eq, wayFromRoot, if_pos (isAbsolute_absolute? h hcwd),
    way_absolute? h fun _ => hne]

end Path

namespace FileTree
variable (t : FileTree)

/-! ## Steps -/

theorem followAll_cons (at_ : Location) (p : Path.Part) (ps : List Path.Part) :
    t.followAll at_ (p :: ps) =
      match t.get? at_ with
      | none => .error .notFound
      | some (.file _) => .error .notADirectory
      | some .directory =>
        match follow at_ p with
        | .ok next => t.followAll next ps
        | .error e => .error e := rfl

variable {t}

theorem followAll_cons_eq_ok {at_ last : Location} {p : Path.Part} {ps : List Path.Part} :
    t.followAll at_ (p :: ps) = .ok last ↔ t.get? at_ = some .directory ∧
      ∃ next, follow at_ p = .ok next ∧ t.followAll next ps = .ok last := by
  rw [followAll_cons]
  cases t.get? at_ with
  | none => simp
  | some e =>
    cases e with
    | file c => simp
    | directory => cases follow at_ p <;> simp

theorem follow_eq_ok {at_ next : Location} {p : Path.Part} (h : follow at_ p = .ok next) :
    next = Path.climb at_ p := by
  cases p with
  | name s =>
    simp only [follow] at h
    split at h
    · cases h
    · exact (Except.ok.inj h).symm
  | _ => exact (Except.ok.inj h).symm

theorem followAll_eq_ok {at_ last : Location} {ps : List Path.Part}
    (h : t.followAll at_ ps = .ok last) : last = ps.foldl Path.climb at_ := by
  induction ps generalizing at_ with
  | nil => exact (Except.ok.inj h).symm
  | cons p ps ih =>
    obtain ⟨-, next, hnext, hrest⟩ := followAll_cons_eq_ok.mp h
    rw [List.foldl_cons, ← follow_eq_ok hnext]
    exact ih hrest

/-- A path that goes on with a dot leads to a directory. -/
theorem directory_of_followAll {at_ last : Location} {ps : List Path.Part}
    (h : t.followAll at_ (ps ++ [.here]) = .ok last) : t.get? last = some .directory := by
  induction ps generalizing at_ with
  | nil =>
    obtain ⟨hdir, next, hnext, hlast⟩ := followAll_cons_eq_ok.mp h
    cases hnext
    cases hlast
    exact hdir
  | cons p ps ih =>
    obtain ⟨-, next, -, hrest⟩ := followAll_cons_eq_ok.mp h
    exact ih hrest

/-- A dot before another step says nothing that this step does not say. -/
theorem followAll_here (at_ : Location) {ps : List Path.Part} (h : ps ≠ []) :
    t.followAll at_ (.here :: ps) = t.followAll at_ ps := by
  obtain ⟨p, ps, rfl⟩ := List.exists_cons_of_ne_nil h
  have hhere : follow at_ .here = .ok at_ := rfl
  rw [followAll_cons t at_ .here, hhere]
  cases hget : t.get? at_ with
  | none => rw [followAll_cons, hget]
  | some e =>
    cases e with
    | file c => rw [followAll_cons, hget]
    | directory => rfl

theorem followAll_filter (at_ : Location) {ps : List Path.Part} (h : ps.getLast? ≠ some .here) :
    t.followAll at_ (ps.filter (· ≠ .here)) = t.followAll at_ ps := by
  induction ps generalizing at_ with
  | nil => rfl
  | cons p ps ih =>
    have hlast : ps.getLast? ≠ some .here := by
      intro hlast
      rw [List.getLast?_cons, hlast] at h
      exact h rfl
    by_cases hp : p = .here
    · subst hp
      have hne : ps ≠ [] := by
        rintro rfl
        exact h rfl
      rw [List.filter_cons_of_neg (by simp), ih at_ hlast, followAll_here at_ hne]
    · rw [List.filter_cons_of_pos (by simpa using hp), followAll_cons, followAll_cons]
      simp only [ih _ hlast]

/-! ## Paths -/

theorem locate_eq_place {p : String} {at_ : Location} (h : t.locate p = .ok at_) :
    at_ = Path.place t.cwd p := by
  have hdot : ∀ b : Bool, (if b then [Path.Part.here] else []).foldl Path.climb (Path.place t.cwd p) =
      Path.place t.cwd p := by
    intro b
    cases b <;> rfl
  simp only [locate, locateSteps] at h
  split at h
  · cases h
  · split at h
    · cases h
    · rw [followAll_eq_ok h, List.foldl_append]
      exact hdot _

section
variable {p q : String}

theorem filter_steps (p : String) : (t.steps p).filter (· ≠ .here) = Path.wayFromRoot t.cwd p := by
  rw [steps, Path.wayFromRoot]
  split
  · rfl
  · rw [List.filter_append]
    rfl

theorem getLast?_steps {last : Path.Part} (h : (Path.segments p.toList).getLast? = some last) :
    (t.steps p).getLast? = some last := by
  rw [steps]
  split
  · exact h
  · rw [List.getLast?_append, h, Option.some_or]

theorem locate_of_firm (h : Path.Firm p) (hnul : '\x00' ∉ p.toList) :
    t.locate p = t.followAll [] (Path.wayFromRoot t.cwd p) := by
  have hne : p.toList ≠ [] := fun he => h.ne_empty (String.toList_eq_nil_iff.mp he)
  have hlast : (t.steps p).getLast? ≠ some .here := by
    rw [getLast?_steps (Path.getLast?_segments h.1), ← Path.getLast?_segments h.1]
    exact h.last_ne_here
  rw [locate, h.not_endsInSlash, if_neg Bool.false_ne_true, List.append_nil, locateSteps,
    if_neg hne, if_neg hnul, ← filter_steps, followAll_filter _ hlast]

theorem locate_of_nul (h : Path.Firm p) (hnul : '\x00' ∈ p.toList) :
    t.locate p = .error .nullInPath := by
  have hne : p.toList ≠ [] := fun he => h.ne_empty (String.toList_eq_nil_iff.mp he)
  rw [locate, locateSteps, if_neg hne, if_pos hnul]

variable (t) in
/-- What firm paths lead to depends on nothing but their ways. -/
theorem locate_of_sameWay (hp : Path.Firm p) (hq : Path.Firm q) (h : Path.SameWay p q) :
    t.locate p = t.locate q := by
  have hnul : '\x00' ∈ p.toList ↔ '\x00' ∈ q.toList := by
    rw [Path.mem_iff_mem_way (by decide) (by decide), h.way,
      ← Path.mem_iff_mem_way (by decide) (by decide)]
  by_cases hmem : '\x00' ∈ p.toList
  · rw [locate_of_nul hp hmem, locate_of_nul hq (hnul.mp hmem)]
  · rw [locate_of_firm hp hmem, locate_of_firm hq fun hq => hmem (hnul.mpr hq), Path.wayFromRoot,
      Path.wayFromRoot, h.isAbsolute, h.way]

variable (t) in
theorem isFile_of_sameWay (hp : Path.Firm p) (hq : Path.Firm q) (h : Path.SameWay p q) :
    t.isFile p = t.isFile q := by
  rw [isFile, isFile, entry, entry, locate_of_sameWay t hp hq h]

variable (t) in
theorem locate_congr (hp : Path.Firm p) (hq : Path.Firm q) (h : Path.parts p = Path.parts q) :
    t.locate p = t.locate q :=
  locate_of_sameWay t hp hq (Path.sameWay_of_parts h)

variable (t) in
theorem readText_congr (hp : Path.Firm p) (hq : Path.Firm q) (h : Path.parts p = Path.parts q) :
    t.readText p = t.readText q := by
  rw [readText, readText, readContent, readContent, entry, entry, locate_congr t hp hq h]

variable (t) in
theorem isFile_congr (hp : Path.Firm p) (hq : Path.Firm q) (h : Path.parts p = Path.parts q) :
    t.isFile p = t.isFile q :=
  isFile_of_sameWay t hp hq (Path.sameWay_of_parts h)

/-- A path that is not firm can only lead to a directory. -/
theorem directory_of_locate {at_ : Location} (hp : ¬Path.Firm p) (h : t.locate p = .ok at_) :
    t.get? at_ = some .directory := by
  simp only [locate, locateSteps] at h
  split at h
  · cases h
  · next hne =>
    split at h
    · cases h
    · cases hslash : Path.endsInSlash p with
      | true =>
        rw [hslash, if_pos rfl] at h
        exact directory_of_followAll h
      | false =>
        have hhere : (Path.segments p.toList).getLast? = some .here := by
          rcases Path.of_not_firm hp with rfl | hend | hhere
          · exact absurd rfl hne
          · rw [hslash] at hend
            cases hend
          · exact hhere
        obtain ⟨ps, hps⟩ := List.getLast?_eq_some_iff.mp (getLast?_steps (t := t) hhere)
        rw [hslash, if_neg Bool.false_ne_true, List.append_nil, hps] at h
        exact directory_of_followAll h

theorem entry_eq_ok {e : Entry} :
    t.entry p = .ok e ↔ ∃ at_, t.locate p = .ok at_ ∧ t.get? at_ = some e := by
  rw [entry]
  cases t.locate p with
  | error e => simp [bind, Except.bind]
  | ok at_ => cases hget : t.get? at_ <;> simp [bind, Except.bind, hget]

theorem firm_of_entry {c : Content} (h : t.entry p = .ok (.file c)) : Path.Firm p := by
  refine Classical.byContradiction fun hp => ?_
  obtain ⟨at_, hat, hget⟩ := entry_eq_ok.mp h
  rw [directory_of_locate hp hat] at hget
  cases hget

theorem entry_of_readText {s : String} (h : t.readText p = .ok s) :
    t.entry p = .ok (.file (.text s)) := by
  simp only [readText, readContent] at h
  cases he : t.entry p with
  | error e =>
    rw [he] at h
    cases h
  | ok e =>
    rw [he] at h
    cases e with
    | directory => cases h
    | file c =>
      cases c with
      | text s' =>
        cases h
        rfl
      | binary bytes => cases h

theorem firm_of_readText {s : String} (h : t.readText p = .ok s) : Path.Firm p :=
  firm_of_entry (entry_of_readText h)

theorem isFile_of_readText {s : String} (h : t.readText p = .ok s) : t.isFile p = true := by
  rw [isFile, entry_of_readText h]

end

/-! ## Removal -/

theorem get?_erase_below {at_ at' : Location} (h : at_ <+: at') (hne : at' ≠ []) :
    (t.erase at_).get? at' = none := by
  have hgone : (!at_.isPrefixOf at') = false := by
    rw [Bool.not_eq_false', List.isPrefixOf_iff_prefix]
    exact h
  rw [get?, if_neg hne, erase, lookup_filter fun l => !at_.isPrefixOf l, hgone]
  rfl

theorem get?_erase_elsewhere {at_ at' : Location} (h : ¬at_ <+: at') :
    (t.erase at_).get? at' = t.get? at' := by
  have hkept : (!at_.isPrefixOf at') = true := by
    rw [Bool.not_eq_true', Bool.eq_false_iff, ne_eq, List.isPrefixOf_iff_prefix]
    exact h
  rw [get?, get?, erase, lookup_filter fun l => !at_.isPrefixOf l, if_pos hkept]

theorem get?_of_erase {at_ at' : Location} {e : Entry} (h : (t.erase at_).get? at' = some e) :
    t.get? at' = some e := by
  by_cases hunder : at_ <+: at'
  · by_cases hroot : at' = []
    · rw [hroot] at h ⊢
      exact h
    · rw [get?_erase_below hunder hroot] at h
      cases h
  · rwa [get?_erase_elsewhere hunder] at h

theorem get?_eraseBelow_elsewhere {at_ at' : Location} (h : ¬at_ <+: at') :
    (t.eraseBelow at_).get? at' = t.get? at' := by
  have hapart : at_.isPrefixOf at' = false := by
    rw [Bool.eq_false_iff, ne_eq, List.isPrefixOf_iff_prefix]
    exact h
  rw [get?, get?, eraseBelow, lookup_filter fun l => !(at_.isPrefixOf l && decide (l ≠ at_)),
    hapart]
  rfl

section
variable {p : String}

theorem isDirectory_iff : t.isDirectory p = true ↔
    ∃ at_, t.locate p = .ok at_ ∧ t.get? at_ = some .directory := by
  rw [← entry_eq_ok, isDirectory]
  cases t.entry p with
  | error e => simp
  | ok e => cases e <;> simp

theorem isDirectory_erase (h : Path.place t.cwd p ≠ []) :
    (t.erase (Path.place t.cwd p)).isDirectory p = false := by
  rw [Bool.eq_false_iff]
  intro hdir
  obtain ⟨at_, hat, hget⟩ := isDirectory_iff.mp hdir
  have hplace := locate_eq_place hat
  change at_ = Path.place t.cwd p at hplace
  rw [hplace, get?_erase_below (List.prefix_refl _) h] at hget
  cases hget

theorem isDirectory_of_removeDirectory {t' : FileTree} (h : t.removeDirectory p = .ok t') :
    t.isDirectory p = true := by
  rw [removeDirectory] at h
  rw [isDirectory]
  cases hentry : t.entry p with
  | error cause =>
    rw [hentry] at h
    cases h
  | ok e =>
    rw [hentry] at h
    cases e with
    | file c => cases h
    | directory => rfl

theorem removeDirectory_eq_ok {t' : FileTree}
    (h : t.removeDirectory p = .ok t') : ∃ at_, t.locate p = .ok at_ ∧
      t.get? at_ = some .directory ∧ (t' = t.eraseBelow at_ ∨ t' = t.erase at_) := by
  obtain ⟨at_, hat, hdir⟩ := isDirectory_iff.mp (isDirectory_of_removeDirectory h)
  refine ⟨at_, hat, hdir, ?_⟩
  rw [removeDirectory, entry_eq_ok.mpr ⟨at_, hat, hdir⟩] at h
  simp only [bind, Except.bind, hat] at h
  split at h
  · exact .inl (Except.ok.inj h).symm
  · exact .inr (Except.ok.inj h).symm

/-- A directory that is removed takes away nothing from elsewhere. -/
theorem get?_of_removeDirectory {t' : FileTree} (h : t.removeDirectory p = .ok t')
    {at_ : Location} (hat : ¬Path.place t.cwd p <+: at_) : t'.get? at_ = t.get? at_ := by
  obtain ⟨at', hat', -, rfl | rfl⟩ := removeDirectory_eq_ok h
  · rw [get?_eraseBelow_elsewhere (locate_eq_place hat' ▸ hat)]
  · rw [get?_erase_elsewhere (locate_eq_place hat' ▸ hat)]

/-- A directory can be removed by a path to it. One that ends in two dots leaves it there empty. -/
theorem removeDirectory_of_isDirectory (h : t.isDirectory p = true)
    (hlast : (Path.segments p.toList).getLast? ≠ some .up) :
    t.removeDirectory p = .ok (t.erase (Path.place t.cwd p)) := by
  obtain ⟨at_, hat, hget⟩ := isDirectory_iff.mp h
  have hentry : t.entry p = .ok .directory := entry_eq_ok.mpr ⟨at_, hat, hget⟩
  rw [← locate_eq_place hat, removeDirectory, hentry]
  simp only [bind, Except.bind, hat, if_neg hlast]

end

end FileTree
end UsageGraph
