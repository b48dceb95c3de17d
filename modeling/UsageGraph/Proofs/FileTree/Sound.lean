import UsageGraph.FileTree.Tasks
import UsageGraph.Proofs.FileTree.Writing
import Mathlib.Data.List.Induction

/-! # Sound file trees

A list of entries is a file tree if it lists each location once and in order, if names stand in it
that paths can spell, and if whatever it lists lies in a directory.

* `FileTree.Sound`: these conditions.
* `FileTree.Sound.get?_eq_some`: an entry is found by its location exactly if it is listed.
* `FileTree.Sound.directory_above`, `FileTree.Sound.none_below`: what is there lies in directories,
  and what is not there holds nothing.
* `FileTree.Sound.put`, `FileTree.Sound.erase`: the two changes that keep a tree sound.
* `FileTree.Sound.writeFile`, `FileTree.Sound.createDirectory`, `FileTree.Sound.removeDirectory`:
  so do the calls of the file system, whatever paths they are given.
-/

namespace UsageGraph
set_option autoImplicit false

/-! ## Order of locations -/

theorem location_lt_or_lt {a b : Location} (h : a ≠ b) : a < b ∨ b < a := by
  by_cases hab : a < b
  · exact .inl hab
  · refine .inr (Classical.byContradiction fun hba => h ?_)
    exact List.le_antisymm (List.not_lt.mp hba) (List.not_lt.mp hab)

/-- Locations below one directory are in the order of their remainders. -/
theorem append_lt_append_iff (dir : Location) {a b : Location} : dir ++ a < dir ++ b ↔ a < b := by
  induction dir with
  | nil => rfl
  | cons n dir ih =>
    rw [List.cons_append, List.cons_append, List.cons_lt_cons_iff, ih]
    constructor
    · rintro (hlt | ⟨-, h⟩)
      · exact absurd hlt (String.lt_irrefl n)
      · exact h
    · intro h
      exact .inr ⟨rfl, h⟩

namespace FileTree
variable {t : FileTree}

theorem mem_insert {at_ : Location} {e : Entry} {es : List (Location × Entry)}
    {p : Location × Entry} (h : p ∈ insert at_ e es) : p = (at_, e) ∨ p ∈ es := by
  induction es with
  | nil => exact .inl (List.mem_singleton.mp h)
  | cons q es ih =>
    rw [insert] at h
    split at h
    · exact (List.mem_cons.mp h).imp_right (List.mem_cons_of_mem _)
    · split at h
      · exact List.mem_cons.mp h
      · rcases List.mem_cons.mp h with hq | hrest
        · exact .inr (hq ▸ List.mem_cons_self)
        · exact (ih hrest).imp_right (List.mem_cons_of_mem _)

theorem pairwise_insert (at_ : Location) (e : Entry) {es : List (Location × Entry)}
    (h : es.Pairwise fun p q => p.1 < q.1) : (insert at_ e es).Pairwise fun p q => p.1 < q.1 := by
  induction es with
  | nil => exact List.pairwise_singleton _ _
  | cons q es ih =>
    obtain ⟨hq, hes⟩ := List.pairwise_cons.mp h
    rw [insert]
    split
    · next hsame =>
      exact List.pairwise_cons.mpr ⟨fun p hp => hsame ▸ hq p hp, hes⟩
    · next hne =>
      split
      · next hlt =>
        refine List.pairwise_cons.mpr ⟨fun p hp => ?_, h⟩
        rcases List.mem_cons.mp hp with rfl | hp
        · exact hlt
        · exact List.lt_trans hlt (hq p hp)
      · next hge =>
        have hgt : q.1 < at_ := (location_lt_or_lt hne).resolve_left hge
        refine List.pairwise_cons.mpr ⟨fun p hp => ?_, ih hes⟩
        rcases mem_insert hp with rfl | hp
        · exact hgt
        · exact hq p hp

/-! ## Sound trees -/

structure Sound (t : FileTree) : Prop where
  ordered : t.entries.Pairwise fun p q => p.1 < q.1
  named : ∀ p ∈ t.entries, p.1 ≠ [] ∧ ∀ n ∈ p.1, Path.Plain n
  housed : ∀ p ∈ t.entries, t.get? p.1.dropLast = some .directory

instance (t : FileTree) : Decidable t.Sound :=
  decidable_of_iff (t.entries.Pairwise (fun p q => p.1 < q.1) ∧
    (∀ p ∈ t.entries, p.1 ≠ [] ∧ ∀ n ∈ p.1, Path.Plain n) ∧
    ∀ p ∈ t.entries, t.get? p.1.dropLast = some .directory)
    ⟨fun ⟨ho, hn, hh⟩ => ⟨ho, hn, hh⟩, fun h => ⟨h.ordered, h.named, h.housed⟩⟩

namespace Sound
variable (h : t.Sound)
include h

/-- Of two entries at one place the first would hide the second. -/
theorem lookup_of_mem {at_ : Location} {e : Entry} (hmem : (at_, e) ∈ t.entries) :
    t.entries.lookup at_ = some e := by
  obtain ⟨before, after, hsplit⟩ := List.append_of_mem hmem
  refine List.lookup_eq_some_iff.mpr ⟨before, after, hsplit, fun p hp => ?_⟩
  have hordered := h.ordered
  rw [hsplit] at hordered
  have hlt : p.1 < at_ := (List.pairwise_append.mp hordered).2.2 p hp _ List.mem_cons_self
  have hne : at_ ≠ p.1 := by
    rintro rfl
    exact List.lt_irrefl _ hlt
  simpa using hne

theorem get?_eq_some {at_ : Location} {e : Entry} (hne : at_ ≠ []) :
    t.get? at_ = some e ↔ (at_, e) ∈ t.entries := by
  rw [get?, if_neg hne]
  exact ⟨mem_of_lookup, h.lookup_of_mem⟩

theorem plain_of_get? {at_ : Location} {e : Entry} (hget : t.get? at_ = some e) :
    ∀ n ∈ at_, Path.Plain n := by
  intro n hn
  have hmem := (h.get?_eq_some (List.ne_nil_of_mem hn)).mp hget
  exact (h.named _ hmem).2 n hn

theorem directory_of_dropLast {at_ : Location} {e : Entry} (hget : t.get? at_ = some e) :
    t.get? at_.dropLast = some .directory := by
  by_cases hne : at_ = []
  · rw [hne]
    rfl
  · exact h.housed _ ((h.get?_eq_some hne).mp hget)

/-- A directory lies in directories from the root directory on. -/
theorem directory_above_dropLast {dir at_ : Location}
    (habove : t.get? at_.dropLast = some .directory) (hunder : dir <+: at_) (hne : dir ≠ at_) :
    t.get? dir = some .directory := by
  obtain ⟨rest, rfl⟩ := hunder
  induction rest using List.reverseRecOn with
  | nil => exact absurd (List.append_nil dir).symm hne
  | append_singleton rest n ih =>
    rw [← List.append_assoc, List.dropLast_concat] at habove
    by_cases hrest : rest = []
    · rwa [hrest, List.append_nil] at habove
    · exact ih (h.directory_of_dropLast habove) fun he => hrest (List.self_eq_append_right.mp he)

theorem directory_above {dir at_ : Location} {e : Entry} (hget : t.get? at_ = some e)
    (hunder : dir <+: at_) (hne : dir ≠ at_) : t.get? dir = some .directory :=
  h.directory_above_dropLast (h.directory_of_dropLast hget) hunder hne

/-- Where there is no directory, there is nothing below. -/
theorem none_below {dir at_ : Location} (hdir : t.get? dir ≠ some .directory)
    (hunder : dir <+: at_) (hne : dir ≠ at_) : t.get? at_ = none := by
  cases hget : t.get? at_ with
  | none => rfl
  | some e => exact absurd (h.directory_above hget hunder hne) hdir

/-! ## Changes -/

theorem put {at_ : Location} (hne : at_ ≠ []) (hnames : ∀ n ∈ at_, Path.Plain n)
    (habove : t.get? at_.dropLast = some .directory) (hfree : t.get? at_ ≠ some .directory)
    (e : Entry) : (t.put at_ e).Sound where
  ordered := pairwise_insert at_ e h.ordered
  named := by
    intro p hp
    rcases mem_insert hp with rfl | hp
    · exact ⟨hne, hnames⟩
    · exact h.named p hp
  housed := by
    have hkept : ∀ dir, t.get? dir = some .directory →
        (t.put at_ e).get? dir = some .directory := by
      intro dir hdir
      have hapart : dir ≠ at_ := by
        rintro rfl
        exact hfree hdir
      rw [get?_put_of_ne t e hapart, hdir]
    intro p hp
    rcases mem_insert hp with rfl | hp
    · exact hkept _ habove
    · exact hkept _ (h.housed p hp)

/-- What is kept has to lie in something that is kept. -/
theorem keep (kept : Location → Bool)
    (hkept : ∀ at_, kept at_ = true → at_.dropLast ≠ [] → kept at_.dropLast = true) :
    ({ t with entries := t.entries.filter fun p => kept p.1 } : FileTree).Sound where
  ordered := h.ordered.sublist List.filter_sublist
  named := fun p hp => h.named p (List.mem_filter.mp hp).1
  housed := by
    intro p hp
    obtain ⟨hmem, hp⟩ := List.mem_filter.mp hp
    have habove := h.housed p hmem
    by_cases hroot : p.1.dropLast = []
    · rw [hroot]
      rfl
    · rw [get?, if_neg hroot] at habove
      rw [get?, if_neg hroot, lookup_filter, hkept p.1 hp hroot, if_pos rfl, habove]

theorem erase (at_ : Location) : (t.erase at_).Sound := by
  refine h.keep (fun l => !at_.isPrefixOf l) fun l hl _ => ?_
  rw [Bool.not_eq_true', Bool.eq_false_iff, ne_eq, List.isPrefixOf_iff_prefix] at hl ⊢
  exact fun hunder => hl (hunder.trans (List.dropLast_prefix l))

theorem eraseBelow (at_ : Location) : (t.eraseBelow at_).Sound := by
  refine h.keep (fun l => !(at_.isPrefixOf l && decide (l ≠ at_))) fun l hl hroot => ?_
  rw [Bool.not_eq_true', Bool.eq_false_iff, ne_eq, Bool.and_eq_true, decide_eq_true_iff,
    List.isPrefixOf_iff_prefix, not_and] at hl ⊢
  intro hunder _
  refine hl (hunder.trans (List.dropLast_prefix l)) ?_
  rintro rfl
  have hlong := hunder.length_le
  have hpos : 0 < l.dropLast.length := List.length_pos_iff.mpr hroot
  rw [List.length_dropLast] at hlong hpos
  omega

end Sound

/-! ## Calls of the file system -/

/-- A place for an entry: names to reach it by, and a directory to lie in. -/
structure IsPlace (t : FileTree) (at_ : Location) : Prop where
  names : ∀ n ∈ at_, Path.Plain n
  above : t.get? at_.dropLast = some .directory

theorem inner_of_mem_steps {path : String} {p : Path.Part} (hp : p ∈ t.steps path) : p.Inner := by
  rw [steps] at hp
  split at hp
  · exact Path.inner_of_mem_segments hp
  · exact (List.mem_append.mp hp).elim Path.inner_of_mem_segments Path.inner_of_mem_segments

theorem plain_of_inner {s : List Char} (hs : (Path.Part.name s).Inner) :
    Path.Plain (String.ofList s) := by
  obtain ⟨hne, hslash, hdot, hdots⟩ := hs
  refine ⟨fun he => hne ?_, ?_, fun he => hdot ?_, fun he => hdots ?_⟩
  · rw [← String.toList_ofList (l := s), he]
    rfl
  · rwa [String.toList_ofList]
  · rw [← String.toList_ofList (l := s), he]
    rfl
  · rw [← String.toList_ofList (l := s), he]
    rfl

theorem createDirectory_eq_ok {t' : FileTree} {path : String} :
    t.createDirectory path = .ok t' ↔ ∃ at_, t.locateSteps path (t.steps path) = .ok at_ ∧
      t.get? at_ = none ∧ t' = t.put at_ .directory := by
  rw [createDirectory]
  cases t.locateSteps path (t.steps path) with
  | error cause => simp [bind, Except.bind]
  | ok at_ => cases hget : t.get? at_ <;> simp [bind, Except.bind, hget, @eq_comm _ t']

namespace Sound
variable (h : t.Sound)
include h

theorem isPlace_of_follow {at_ next : Location} {p : Path.Part} (hp : p.Inner)
    (hat : t.IsPlace at_) (hdir : t.get? at_ = some .directory)
    (hnext : follow at_ p = .ok next) : t.IsPlace next := by
  have hclimb := follow_eq_ok hnext
  subst hclimb
  cases p with
  | root => exact hp.elim
  | here => exact hat
  | up => exact ⟨fun n hn => hat.names n ((List.dropLast_sublist at_).subset hn),
      h.directory_of_dropLast hat.above⟩
  | name s =>
    refine ⟨fun n hn => ?_, ?_⟩
    · rcases List.mem_append.mp hn with hn | hn
      · exact hat.names n hn
      · rw [List.mem_singleton.mp hn]
        exact plain_of_inner hp
    · rw [Path.climb, List.dropLast_concat]
      exact hdir

/-- Whatever way leads anywhere leads to a place. -/
theorem isPlace_of_followAll {at_ last : Location} {ps : List Path.Part} (hps : ∀ p ∈ ps, p.Inner)
    (hat : t.IsPlace at_) (hlast : t.followAll at_ ps = .ok last) : t.IsPlace last := by
  induction ps generalizing at_ with
  | nil =>
    cases hlast
    exact hat
  | cons p ps ih =>
    obtain ⟨hdir, next, hnext, hrest⟩ := followAll_cons_eq_ok.mp hlast
    obtain ⟨hp, hps⟩ := List.forall_mem_cons.mp hps
    exact ih hps (h.isPlace_of_follow hp hat hdir hnext) hrest

theorem isPlace_of_locateSteps {path : String} {at_ : Location} {ps : List Path.Part}
    (hps : ∀ p ∈ ps, p.Inner) (hat : t.locateSteps path ps = .ok at_) : t.IsPlace at_ := by
  rw [locateSteps] at hat
  split at hat
  · cases hat
  · split at hat
    · cases hat
    · exact h.isPlace_of_followAll hps ⟨fun n hn => absurd hn List.not_mem_nil, rfl⟩ hat

theorem isPlace_of_locate {path : String} {at_ : Location} (hat : t.locate path = .ok at_) :
    t.IsPlace at_ := by
  refine h.isPlace_of_locateSteps (fun p hp => ?_) hat
  rcases List.mem_append.mp hp with hp | hp
  · exact inner_of_mem_steps hp
  · split at hp
    · rw [List.mem_singleton.mp hp]
      trivial
    · cases hp

theorem writeFile {t' : FileTree} {path : String} {c : Content}
    (hwrite : t.writeFile path c = .ok t') : t'.Sound := by
  obtain ⟨at_, hat, hfree, -, rfl⟩ := writeFile_eq_ok.mp hwrite
  have hplace := h.isPlace_of_locate hat
  exact h.put (ne_root_of_get? hfree) hplace.names hplace.above hfree _

theorem createDirectory {t' : FileTree} {path : String}
    (hmake : t.createDirectory path = .ok t') : t'.Sound := by
  obtain ⟨at_, hat, hnone, rfl⟩ := createDirectory_eq_ok.mp hmake
  have hplace := h.isPlace_of_locateSteps (fun p hp => inner_of_mem_steps hp) hat
  have hfree : t.get? at_ ≠ some .directory := by
    rw [hnone]
    exact nofun
  exact h.put (ne_root_of_get? hfree) hplace.names hplace.above hfree _

theorem removeDirectory {t' : FileTree} {path : String}
    (hremove : t.removeDirectory path = .ok t') : t'.Sound := by
  obtain ⟨at_, -, -, rfl | rfl⟩ := removeDirectory_eq_ok hremove
  · exact h.eraseBelow at_
  · exact h.erase at_

theorem remove (path : String) : (t.remove path).Sound := by
  rw [FileTree.remove]
  cases t.locate path with
  | error cause => exact h
  | ok at_ =>
    dsimp only
    split
    · exact h
    · exact h.erase at_

end Sound
end FileTree
end UsageGraph
