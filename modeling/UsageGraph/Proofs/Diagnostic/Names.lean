import UsageGraph.Diagnostic.Report
import UsageGraph.Proofs.Path.Remainder
import UsageGraph.Walk.Sources

/-! # Names of reported files

A compiler may report about a file by any path. The queue and the uses know the file by the names
that are left of the path behind the components of the checkout.

* `way_relativeName`: the name of a file goes the names that are left of its path, and no others.
* `mem_files`, `mem_uses`: what a report names.
* `relativeName_faithful`: the name of a straight path leads to where the path leads.
* `relativeName_conflated`: that of another path may lead to another file.
* `relativeName_listed`: a listed file is reported by the name that it is listed under.
-/

namespace UsageGraph
set_option autoImplicit false

/-! ## The name of a file -/

theorem relativeName_eq (file workdir : String) :
    relativeName file workdir = Path.namesOnly (Path.remainder workdir file) := rfl

theorem toList_relativeName (file workdir : String) : (relativeName file workdir).toList =
    Path.joinChars (((Path.remainder workdir file).filter Path.Part.isName).map Path.Part.text) := by
  rw [relativeName_eq, Path.namesOnly_eq, String.toList_ofList]

theorem isAbsolute_relativeName (file workdir : String) :
    Path.isAbsolute (relativeName file workdir) = false := by
  rw [relativeName_eq, Path.namesOnly_eq]
  exact Path.isAbsolute_joinChars_text fun _ hw => Path.inner_of_mem_names hw

theorem way_relativeName (file workdir : String) : Path.way (relativeName file workdir) =
    (Path.remainder workdir file).filter Path.Part.isName := by
  rw [Path.way, toList_relativeName,
    Path.segments_joinChars fun _ hw => Path.inner_of_mem_names hw, List.filter_filter]
  refine List.filter_congr fun q _ => ?_
  cases q <;> simp [Path.Part.isName]

section
variable {workdir : String} (h : Path.isAbsolute workdir)
include h

/-- From the checkout on, a name goes the names of the path and nothing else. -/
theorem place_relativeName (file : String) : Path.place workdir (relativeName file workdir) =
    ((Path.remainder workdir file).filter Path.Part.isName).foldl Path.climb
      (Path.place workdir workdir) := by
  rw [Path.place_eq, Path.wayFromRoot, isAbsolute_relativeName, if_neg Bool.false_ne_true,
    way_relativeName, List.foldl_append, Path.place_eq, Path.wayFromRoot, if_pos h]

theorem length_place_relativeName (file : String) :
    (Path.place workdir (relativeName file workdir)).length =
      (Path.place workdir workdir).length +
        ((Path.remainder workdir file).filter Path.Part.isName).length := by
  have hnames : ∀ w ∈ (Path.remainder workdir file).filter Path.Part.isName, ∃ s, w = .name s :=
    fun w hw => Path.Part.isName_iff.mp (List.mem_filter.mp hw).2
  rw [place_relativeName h, Path.foldl_climb_names hnames, List.length_append, List.length_map]

theorem place_of_straight {file : String} (hfile : Path.Straight workdir file) :
    Path.place workdir (relativeName file workdir) = Path.place workdir file := by
  obtain ⟨hroot, hup⟩ := (Path.straight_iff h).mp hfile
  have hkeep : (Path.remainder workdir file).filter Path.Part.isName =
      (Path.remainder workdir file).filter (· ≠ .here) := by
    refine List.filter_congr fun q hq => ?_
    cases q with
    | name s => rfl
    | here => rfl
    | root => exact absurd hq hroot
    | up => exact absurd hq hup
  rw [place_relativeName h, hkeep, Path.foldl_climb_filter, ← Path.place_eq_foldl_remainder h]

/-- A step that goes up or back to the root loses a level that the name of the file keeps. -/
theorem straight_of_place {file : String} (hdir : Path.place workdir workdir ≠ [])
    (hplace : Path.place workdir (relativeName file workdir) = Path.place workdir file) :
    Path.Straight workdir file := by
  refine (Path.straight_iff h).mpr (not_or.mp fun hlost => ?_)
  have hlt := Path.length_foldl_climb_lt hdir hlost
  rw [← Path.place_eq_foldl_remainder h, ← hplace, length_place_relativeName h] at hlt
  exact Nat.lt_irrefl _ hlt

end

/-! ## Sets of names -/

theorem mem_insertName {name n : String} {names : List String} :
    n ∈ insertName name names ↔ n = name ∨ n ∈ names := by
  induction names with
  | nil => rw [insertName, List.mem_singleton, or_iff_left List.not_mem_nil]
  | cons m names ih =>
    rw [insertName]
    split
    · next heq => rw [heq, List.mem_cons, or_self_left]
    · split
      · rw [List.mem_cons]
      · rw [List.mem_cons, ih, List.mem_cons, or_left_comm]

theorem pairwise_insertName (name : String) {names : List String} (h : names.Pairwise (· < ·)) :
    (insertName name names).Pairwise (· < ·) := by
  induction names with
  | nil => exact List.pairwise_singleton _ _
  | cons m names ih =>
    obtain ⟨hm, hnames⟩ := List.pairwise_cons.mp h
    rw [insertName]
    split
    · exact h
    · next hne =>
      split
      · next hlt =>
        refine List.pairwise_cons.mpr ⟨fun n hn => ?_, h⟩
        rcases List.mem_cons.mp hn with rfl | hn
        · exact hlt
        · exact String.lt_trans hlt (hm n hn)
      · next hge =>
        have hlt : m < name := (Table.lt_or_lt_of_ne hne).resolve_left hge
        refine List.pairwise_cons.mpr ⟨fun n hn => ?_, ih hnames⟩
        rcases mem_insertName.mp hn with rfl | hn
        · exact hlt
        · exact hm n hn

theorem mem_foldl_insertName {n : String} {names start : List String} :
    n ∈ names.foldl (fun ns n => insertName n ns) start ↔ n ∈ start ∨ n ∈ names := by
  induction names generalizing start with
  | nil => rw [List.foldl_nil, or_iff_left List.not_mem_nil]
  | cons m names ih => rw [List.foldl_cons, ih, mem_insertName, List.mem_cons, or_assoc, or_left_comm]

theorem mem_nameSet {n : String} {names : List String} : n ∈ nameSet names ↔ n ∈ names := by
  rw [nameSet, mem_foldl_insertName, or_iff_right List.not_mem_nil]

/-- Each name is there once, and they are in order. -/
theorem pairwise_nameSet (names : List String) : (nameSet names).Pairwise (· < ·) := by
  have hfold : ∀ start : List String, start.Pairwise (· < ·) →
      (names.foldl (fun ns n => insertName n ns) start).Pairwise (· < ·) := by
    induction names with
    | nil => exact fun _ h => h
    | cons n names ih => exact fun start h => ih _ (pairwise_insertName n h)
  exact hfold [] .nil

theorem mem_files {output workdir name : String} : name ∈ (scrape output workdir).files ↔
    ∃ d ∈ diagnostics output, relativeName d.file workdir = name := by
  rw [scrape, mem_nameSet, List.mem_map]

theorem mem_uses {output workdir : String} {u : ExternalUse} :
    u ∈ (scrape output workdir).uses ↔ ∃ d ∈ diagnostics output, d.use? workdir = some u :=
  List.mem_filterMap

theorem file_of_use? {workdir : String} {d : Diagnostic} {u : ExternalUse}
    (h : d.use? workdir = some u) : u.file = relativeName d.file workdir := by
  rw [Diagnostic.use?] at h
  split at h
  · split at h
    · split at h
      · cases h
      · cases h
        rfl
    · cases h
  · cases h

/-! ## Faithful names -/

/-- The name of a straight path leads to where the path leads, and if the checkout is not the root
directory, no other name does. So straight paths to different files have different names, and a
report about straight paths says nothing about a file that no record is about. -/
theorem relativeName_faithful {workdir : String} (h : Path.isAbsolute workdir) :
    (∀ file, Path.Straight workdir file →
      Path.place workdir (relativeName file workdir) = Path.place workdir file) ∧
    (Path.place workdir workdir ≠ [] → ∀ file,
      Path.place workdir (relativeName file workdir) = Path.place workdir file →
        Path.Straight workdir file) ∧
    (∀ file file', Path.Straight workdir file → Path.Straight workdir file' →
      Path.place workdir file ≠ Path.place workdir file' →
        relativeName file workdir ≠ relativeName file' workdir) ∧
    ∀ output, (∀ d ∈ diagnostics output, Path.Straight workdir d.file) →
      (∀ name ∈ (scrape output workdir).files, ∃ d ∈ diagnostics output,
        Path.place workdir name = Path.place workdir d.file) ∧
      ∀ u ∈ (scrape output workdir).uses, ∃ d ∈ diagnostics output,
        d.use? workdir = some u ∧ Path.place workdir u.file = Path.place workdir d.file := by
  refine ⟨fun file => place_of_straight h, fun hdir file => straight_of_place h hdir, ?_, ?_⟩
  · intro file file' hfile hfile' hne hname
    refine hne ?_
    rw [← place_of_straight h hfile, hname, place_of_straight h hfile']
  · intro output hrecords
    refine ⟨fun name hname => ?_, fun u hu => ?_⟩
    · obtain ⟨d, hd, rfl⟩ := mem_files.mp hname
      exact ⟨d, hd, place_of_straight h (hrecords d hd)⟩
    · obtain ⟨d, hd, huse⟩ := mem_uses.mp hu
      refine ⟨d, hd, huse, ?_⟩
      rw [file_of_use? huse, place_of_straight h (hrecords d hd)]

/-- A checkout that is spelled with two dots and a slash at the end, a file that is spelled along with
it, and a file beside the checkout. -/
theorem relativeName_faithful_spelled :
    Path.place "/work/x/../app/" (relativeName "/work//x/../app/src/./Main.elm" "/work/x/../app/") =
        Path.place "/work/x/../app/" "/work//x/../app/src/./Main.elm" ∧
      relativeName "src/Main.elm" "/work/x/../app/" ≠ relativeName "src/App.elm" "/work/x/../app/" ∧
      Path.place "/work/x/../app/" (relativeName "/work/app/src/Main.elm" "/work/x/../app/") ≠
        Path.place "/work/x/../app/" "/work/app/src/Main.elm" := by
  obtain ⟨hleads, honly, hapart, -⟩ :=
    @relativeName_faithful "/work/x/../app/" (by decide +kernel)
  refine ⟨hleads _ (by decide +kernel), ?_, fun hplace => ?_⟩
  · exact hapart _ _ (by decide +kernel) (by decide +kernel) (by decide +kernel)
  · have hnot : ¬Path.Straight "/work/x/../app/" "/work/app/src/Main.elm" := by decide +kernel
    exact hnot (honly (by decide +kernel) _ hplace)

/-- A file of a neighbour and a file of the checkout go by one name, and so does a file of a package
whose directory only begins like the checkout. -/
theorem relativeName_conflated :
    Path.isAbsolute "/work/app" = true ∧
      relativeName "./../lib/Util.elm" "/work/app" = relativeName "./lib/Util.elm" "/work/app" ∧
      Path.place "/work/app" "./../lib/Util.elm" = ["work", "lib", "Util.elm"] ∧
      Path.place "/work/app" "./lib/Util.elm" = ["work", "app", "lib", "Util.elm"] ∧
      Path.place "/work/app" (relativeName "/work/app2/Util.elm" "/work/app") =
        ["work", "app", "work", "app2", "Util.elm"] := by
  decide +kernel

/-! ## Listed files -/

/-- Every name in the tree can stand between slashes. -/
def FileTree.Named (t : FileTree) : Prop := ∀ e ∈ t.entries, ∀ n ∈ e.1, Path.Plain n

instance (t : FileTree) : Decidable t.Named :=
  inferInstanceAs (Decidable (∀ e ∈ t.entries, ∀ n ∈ e.1, Path.Plain n))

section
variable {workdir : String} (h : Path.isAbsolute workdir)
include h

theorem relativeName_of_relative {p : String} (hp : Path.isAbsolute p = false) :
    relativeName p workdir = Path.namesOnly (Path.way p) := by
  rw [relativeName_eq, Path.remainder_of_not (Path.not_startsWith_of_relative h hp),
    Path.namesOnly_parts]

theorem relativeName_below (p : String) :
    relativeName (workdir ++ "/" ++ p) workdir = Path.namesOnly (Path.way p) := by
  rw [relativeName_eq, Path.remainder_below h p]

theorem relativeName_relativeName (file base : String) :
    relativeName (relativeName file base) workdir = relativeName file base := by
  rw [relativeName_of_relative h (isAbsolute_relativeName file base), way_relativeName,
    Path.namesOnly_eq, List.filter_filter, relativeName_eq, Path.namesOnly_eq]
  simp only [Bool.and_self]

end

theorem FileTree.Named.listed {t : FileTree} (h : t.Named) {root p : String}
    (hp : p ∈ walk t root) : Path.Listed p := by
  unfold walk at hp
  split at hp
  · cases hp
  · split at hp
    · cases hp
    · split at hp
      · rw [List.mem_singleton.mp hp]
        exact ⟨[], nofun, rfl⟩
      · cases hp
    · obtain ⟨⟨names, e⟩, hmem, hsource⟩ := List.mem_filterMap.mp hp
      obtain ⟨⟨at_, e'⟩, hentry, hbelow⟩ := List.mem_filterMap.mp hmem
      have hnames : ∀ n ∈ names, Path.Plain n := by
        split at hbelow
        · cases hbelow
          exact fun n hn => h _ hentry n (List.mem_of_mem_drop hn)
        · cases hbelow
      refine ⟨names, hnames, ?_⟩
      cases e with
      | directory => cases hsource
      | file c =>
        simp only [sourceBelow?] at hsource
        split at hsource
        · exact (Option.some.inj hsource).symm
        · cases hsource

/-- A listed file keeps its name when it is reported by that name, with a dot in front or below the
checkout. Every file that a walk lists is one, and a name that was given is kept in the same way. -/
theorem relativeName_listed {workdir : String} (h : Path.isAbsolute workdir) :
    (∀ p, Path.Listed p → relativeName p workdir = p ∧ relativeName ("./" ++ p) workdir = p ∧
      relativeName (workdir ++ "/" ++ p) workdir = p) ∧
    (∀ (t : FileTree) root, t.Named → ∀ p ∈ walk t root, Path.Listed p) ∧
    ∀ file base, relativeName (relativeName file base) workdir = relativeName file base := by
  refine ⟨fun p hp => ?_, fun t root ht p hp => ht.listed hp, relativeName_relativeName h⟩
  obtain ⟨hrelative, hnames⟩ := hp.namesOnly_way
  have hdot : Path.isAbsolute ("./" ++ p) = false := by
    rw [Path.isAbsolute_append (by decide)]
    rfl
  refine ⟨?_, ?_, ?_⟩
  · rw [relativeName_of_relative h hrelative, hnames]
  · rw [relativeName_of_relative h hdot, Path.way_here, hnames]
  · rw [relativeName_below h, hnames]

/-- A checkout with a directory of its own name. -/
def nested : FileTree := ⟨[(["work"], .directory), (["work", "app"], .directory),
  (["work", "app", "app"], .directory), (["work", "app", "app", "Main.elm"], .file (.text ""))], "/"⟩

/-- The checkout is spelled with a slash at its end, and a file of its own name begins like it. -/
theorem relativeName_listed_nested :
    "app/Main.elm" ∈ walk nested "/work/app/" ∧
      relativeName "app/Main.elm" "/work/app/" = "app/Main.elm" ∧
      relativeName "./app/Main.elm" "/work/app/" = "app/Main.elm" ∧
      relativeName "/work/app//app/Main.elm" "/work/app/" = "app/Main.elm" ∧
      relativeName (relativeName "/work/app/../app//Main.elm" "/work") "/work/app/" =
        relativeName "/work/app/../app//Main.elm" "/work" := by
  obtain ⟨hlisted, hwalk, hagain⟩ := @relativeName_listed "/work/app/" (by decide +kernel)
  have hmem : "app/Main.elm" ∈ walk nested "/work/app/" := by decide +kernel
  obtain ⟨hplain, hdot, hbelow⟩ :=
    hlisted "app/Main.elm" (hwalk nested "/work/app/" (by decide +kernel) _ hmem)
  exact ⟨hmem, hplain, hdot, hbelow, hagain _ _⟩

end UsageGraph
