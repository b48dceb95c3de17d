import UsageGraph.Proofs.FileTree.Sound
import UsageGraph.Proofs.Path.Remainder
import UsageGraph.Proofs.Text.ByteOrder
import UsageGraph.Walk.Sources
import Mathlib.Data.List.Nodup

/-! # What a walk lists

* `Path.pieces`: what the order of paths looks at, the bytes of one component after the other.
* `Unruled`: no rule of an ignore file says anything about what lies below a directory.
* `FileTree.IsSource`: the source files below a directory, told by their names alone.
* `walk_lists`: a walk lists each of them once, by its path, and in the order of the components.
-/

namespace UsageGraph
open Text
set_option autoImplicit false

/-! ## Paths component by component -/

namespace Path

/-- The bytes of what stands between the slashes. -/
def pieces (p : String) : List Bytes :=
  (splitAll '/' p.toList).map fun s => encode (String.ofList s)

variable {names names' : List String}

theorem splitAll_join (hne : names ≠ []) (h : ∀ n ∈ names, Plain n) :
    splitAll '/' (Text.join "/" names).toList = names.map String.toList := by
  have hslash : ∀ s ∈ names.map String.toList, '/' ∉ s := by
    intro s hs
    obtain ⟨n, hn, rfl⟩ := List.mem_map.mp hs
    exact (h n hn).2.1
  rw [toList_join]
  exact splitAll_intercalate hslash fun hnil => hne (List.map_eq_nil_iff.mp hnil)

theorem pieces_join (hne : names ≠ []) (h : ∀ n ∈ names, Plain n) :
    pieces (Text.join "/" names) = names.map encode := by
  rw [pieces, splitAll_join hne h, List.map_map]
  exact List.map_congr_left fun n _ => congrArg encode String.ofList_toList

theorem join_names_injective (hne : names ≠ []) (hne' : names' ≠ []) (h : ∀ n ∈ names, Plain n)
    (h' : ∀ n ∈ names', Plain n) (heq : Text.join "/" names = Text.join "/" names') :
    names = names' := by
  have hsplit := splitAll_join hne h
  rw [heq, splitAll_join hne' h'] at hsplit
  exact (List.map_inj_right fun _ _ he => String.toList_injective he).mp hsplit.symm

/-- Paths are in the order of their names, whatever the joined texts are. -/
theorem pieces_lt (hne : names ≠ []) (h : ∀ n ∈ names, Plain n) (hne' : names' ≠ [])
    (h' : ∀ n ∈ names', Plain n) (hlt : names < names') :
    pieces (Text.join "/" names) < pieces (Text.join "/" names') := by
  rw [pieces_join hne h, pieces_join hne' h']
  exact List.map_lt (fun _ _ => encode_lt) hlt

/-- The path of a location leads there from everywhere. -/
theorem place_pathOf {at_ : Location} (h : ∀ n ∈ at_, Plain n) (cwd : String) :
    place cwd (FileTree.pathOf at_) = at_ := by
  have htext : (FileTree.pathOf at_).toList = '/' :: (Text.join "/" at_).toList :=
    String.toList_append
  have habs : isAbsolute (FileTree.pathOf at_) = true := by
    rw [isAbsolute, htext]
    rfl
  have hway : way (FileTree.pathOf at_) = at_.map fun n => .name n.toList := by
    rw [← (way_join_names h).2, way, way, htext, segments_slash]
  have hnames : ∀ w ∈ at_.map fun n => Part.name n.toList, ∃ s, w = .name s := by
    intro w hw
    obtain ⟨n, -, rfl⟩ := List.mem_map.mp hw
    exact ⟨n.toList, rfl⟩
  have hspelled : at_.map (fun n => String.ofList (Part.name n.toList).text) = at_ :=
    (List.map_congr_left fun n _ => String.ofList_toList).trans (List.map_id at_)
  rw [place_eq, wayFromRoot, if_pos habs, hway, foldl_climb_names hnames, List.nil_append,
    List.map_map]
  exact hspelled

/-! ## Extensions -/

theorem splitLast_eq_some {c : Char} {s a b : List Char} (h : splitLast c s = some (a, b)) :
    s = a ++ c :: b := by
  induction s generalizing a with
  | nil => cases h
  | cons x s ih =>
    rw [splitLast] at h
    split at h
    · next a' b' hrest =>
      cases h
      rw [ih hrest, List.cons_append]
    · split at h
      · next hx =>
        cases h
        rw [hx, List.nil_append]
      · cases h

/-- A name that begins with something else than a dot has the extension that it ends in. -/
theorem cutName_eq_some {s ext : List Char} (hs : s.head? ≠ some '.') (hext : '.' ∉ ext) :
    (cutName s).2 = some ext ↔ ∃ stem, s = stem ++ '.' :: ext := by
  constructor
  · intro h
    rw [cutName] at h
    split at h
    · next a b hcut =>
      split at h
      · cases h
      · exact ⟨a, by rw [splitLast_eq_some hcut, Option.some.inj h]⟩
    · cases h
  · rintro ⟨stem, rfl⟩
    have hstem : stem ≠ [] := by
      rintro rfl
      exact hs rfl
    rw [cutName, splitLast_append stem hext]
    simp only [if_neg hstem]

theorem fileName?_join (h : ∀ n ∈ names, Plain n) {n : String} (hn : Plain n) :
    fileName? (Text.join "/" (names ++ [n])) = some n.toList := by
  have hall : ∀ x ∈ names ++ [n], Plain x := by
    intro x hx
    rcases List.mem_append.mp hx with hx | hx
    · exact h x hx
    · rw [List.mem_singleton.mp hx]
      exact hn
  rw [fileName?, parts_eq, (way_join_names hall).2, List.map_append, ← List.append_assoc,
    List.map_singleton, List.getLast?_concat]

end Path

theorem isSourceFile_join {dirs : List String} {n : String} (hdirs : ∀ d ∈ dirs, Path.Plain d)
    (hn : Path.Plain n) (hshown : n.toList.head? ≠ some '.') :
    isSourceFile (join "/" (dirs ++ [n])) = true ↔ ∃ stem, n = stem ++ ".elm" := by
  have htext : ∀ stem : String, n = stem ++ ".elm" ↔
      n.toList = stem.toList ++ '.' :: sourceExtension.toList := by
    intro stem
    rw [← String.toList_inj, String.toList_append]
    rfl
  rw [isSourceFile, beq_iff_eq, Path.extension?, Path.fileName?_join hdirs hn, Option.bind_some,
    Path.cutName_eq_some hshown (by decide)]
  constructor
  · rintro ⟨stem, hstem⟩
    exact ⟨String.ofList stem, (htext _).mpr (by rw [String.toList_ofList, hstem])⟩
  · rintro ⟨stem, hstem⟩
    exact ⟨stem.toList, (htext stem).mp hstem⟩

/-! ## Rules -/

/-- The files whose rules count for what lies below a directory. The last one is kept with the
repository that the directory is a work tree of, if it is one. -/
def ignoreFiles (t : FileTree) (dir : Location) : List String :=
  FileTree.pathOf (dir ++ [".ignore"]) :: FileTree.pathOf (dir ++ [".gitignore"]) ::
    ((repositoryDir? t dir).map fun repo => Path.join repo "info/exclude").toList

/-- In none of the directories above a directory or below it, nor in itself, an ignore file holds a
rule. A file that is not there holds none. -/
def Unruled (t : FileTree) (root : Location) : Prop :=
  ∀ dir, t.get? dir = some .directory → dir <+: root ∨ root <+: dir →
    ∀ file ∈ ignoreFiles t dir, rulesIn t file = []

theorem mem_dirsAbove {at_ dir : Location} (h : dir ∈ dirsAbove at_) : dir <+: at_ ∧ dir ≠ at_ := by
  obtain ⟨n, hn, rfl⟩ := List.mem_map.mp h
  have hshort : n < at_.length := List.mem_range.mp (List.mem_reverse.mp hn)
  refine ⟨List.take_prefix n at_, fun he => ?_⟩
  have hlength := congrArg List.length he
  rw [List.length_take] at hlength
  omega

variable {t : FileTree}

theorem mem_dirsInWorkTree {dirs : List Location} {dir : Location}
    (h : dir ∈ dirsInWorkTree t dirs) : dir ∈ dirs := by
  rw [dirsInWorkTree] at h
  split at h
  · exact List.mem_of_mem_take h
  · cases h

theorem nearest?_eq_none {at_ : Location} {isDirectory : Bool} {file : Location → Option String}
    {dirs : List Location} (h : ∀ dir ∈ dirs, ∀ path ∈ file dir, rulesIn t path = []) :
    nearest? t at_ isDirectory file dirs = none := by
  refine List.findSome?_eq_none_iff.mpr fun dir hdir => ?_
  cases hfile : file dir with
  | none => rfl
  | some path =>
    rw [Option.bind_some, h dir hdir path hfile]
    rfl

section
variable (h : t.Sound) {root : Location}
include h

theorem verdict?_of_unruled (hfree : Unruled t root) {at_ : Location} {e : Entry}
    (hget : t.get? at_ = some e) (hat : root <+: at_) (isDirectory : Bool) :
    verdict? t at_ isDirectory = none := by
  have hrules : ∀ dir ∈ dirsAbove at_, ∀ file ∈ ignoreFiles t dir, rulesIn t file = [] := by
    intro dir hdir
    obtain ⟨habove, hne⟩ := mem_dirsAbove hdir
    exact hfree dir (h.directory_above hget habove hne)
      (List.prefix_or_prefix_of_prefix habove hat)
  have hignore : nearest? t at_ isDirectory (fun d => some (FileTree.pathOf (d ++ [".ignore"])))
      (dirsAbove at_) = none := by
    refine nearest?_eq_none fun dir hdir path hpath => hrules dir hdir path ?_
    cases hpath
    exact List.mem_cons_self
  have hgit : nearest? t at_ isDirectory (fun d => some (FileTree.pathOf (d ++ [".gitignore"])))
      (dirsInWorkTree t (dirsAbove at_)) = none := by
    refine nearest?_eq_none fun dir hdir path hpath => hrules dir (mem_dirsInWorkTree hdir) path ?_
    cases hpath
    exact List.mem_cons_of_mem _ List.mem_cons_self
  have hexclude : nearest? t at_ isDirectory
      (fun d => (repositoryDir? t d).map fun repo => Path.join repo "info/exclude")
      (dirsInWorkTree t (dirsAbove at_)) = none := by
    refine nearest?_eq_none fun dir hdir path hpath => hrules dir (mem_dirsInWorkTree hdir) path ?_
    exact List.mem_cons_of_mem _ (List.mem_cons_of_mem _ (Option.mem_toList.mpr hpath))
  rw [verdict?, hignore, hgit, hexclude]
  rfl

/-- Without rules an entry is passed over for its name alone. -/
theorem isPassedOver_of_unruled (hfree : Unruled t root) {names : List String} {n : String}
    {e : Entry} (hget : t.get? (root ++ (names ++ [n])) = some e) (isDirectory : Bool) :
    isPassedOver t (root ++ (names ++ [n])) isDirectory = (n == buildDir || isHidden n) := by
  have hlast : (root ++ (names ++ [n])).getLast?.getD "" = n := by
    rw [← List.append_assoc, List.getLast?_concat]
    rfl
  rw [isPassedOver, verdict?_of_unruled h hfree hget (List.prefix_append root _), hlast]

theorem isReached_iff (hfree : Unruled t root) {names : List String} {e : Entry}
    (hget : t.get? (root ++ names) = some e) : isReached t root names = true ↔
      ∀ n ∈ names, n.toList.head? ≠ some '.' ∧ n ≠ "elm-stuff" := by
  have hstep : ∀ i (hi : i < names.length) (isDirectory : Bool),
      isPassedOver t (root ++ names.take (i + 1)) isDirectory =
        (names[i] == buildDir || isHidden names[i]) := by
    intro i hi isDirectory
    have hthere : ∃ e, t.get? (root ++ names.take (i + 1)) = some e := by
      by_cases hwhole : root ++ names.take (i + 1) = root ++ names
      · exact ⟨e, hwhole ▸ hget⟩
      · refine ⟨.directory, h.directory_above hget ?_ hwhole⟩
        exact (List.prefix_append_right_inj root).mpr (List.take_prefix _ names)
    rw [← List.take_append_getElem hi] at hthere ⊢
    obtain ⟨e', he'⟩ := hthere
    exact isPassedOver_of_unruled h hfree he' isDirectory
  have hname : ∀ n : String, (!(n == buildDir || isHidden n)) = true ↔
      n.toList.head? ≠ some '.' ∧ n ≠ "elm-stuff" := by
    intro n
    rw [isHidden, buildDir, Bool.not_eq_true', Bool.or_eq_false_iff, beq_eq_false_iff_ne,
      beq_eq_false_iff_ne]
    exact and_comm
  rw [isReached, List.all_eq_true]
  constructor
  · intro hall n hn
    obtain ⟨i, hi, rfl⟩ := List.getElem_of_mem hn
    have hi' := hall i (List.mem_range.mpr hi)
    rw [hstep i hi] at hi'
    exact (hname _).mp hi'
  · intro hall i hi
    have hlt := List.mem_range.mp hi
    rw [hstep i hlt]
    exact (hname _).mpr (hall _ (List.getElem_mem hlt))

end

/-! ## Ignore files that are not there -/

theorem rulesIn_of_absent {path : String}
    (h : ∀ content, t.get? (Path.place t.cwd path) ≠ some (.file content)) :
    rulesIn t path = [] := by
  rw [rulesIn]
  cases hread : t.readContent path with
  | error cause => rfl
  | ok content =>
    rw [FileTree.readContent] at hread
    cases hentry : t.entry path with
    | error cause =>
      rw [hentry] at hread
      cases hread
    | ok e =>
      rw [hentry] at hread
      cases e with
      | directory => cases hread
      | file content' =>
        obtain ⟨at_, hat, hget⟩ := FileTree.entry_eq_ok.mp hentry
        rw [FileTree.locate_eq_place hat] at hget
        exact absurd hget (h content')

/-- A tree in which nothing has the name of an ignore file is free of rules. -/
theorem unruled_of_absent (h : t.Sound) (habsent : ∀ p ∈ t.entries,
    ∀ n ∈ p.1.getLast?, n ∉ [".ignore", ".gitignore", "exclude"]) (root : Location) :
    Unruled t root := by
  have hnone : ∀ path name, (Path.place t.cwd path).getLast? = some name →
      name ∈ [".ignore", ".gitignore", "exclude"] → rulesIn t path = [] := by
    intro path name hlast hname
    refine rulesIn_of_absent fun content hget => ?_
    have hne : Path.place t.cwd path ≠ [] := by
      intro hnil
      rw [hnil] at hlast
      cases hlast
    exact habsent _ ((h.get?_eq_some hne).mp hget) name hlast hname
  intro dir hdir _ file hfile
  have hplain := h.plain_of_get? hdir
  have hbeside : ∀ name, Path.Plain name →
      (Path.place t.cwd (FileTree.pathOf (dir ++ [name]))).getLast? = some name := by
    intro name hname
    rw [Path.place_pathOf, List.getLast?_concat]
    intro n hn
    rcases List.mem_append.mp hn with hn | hn
    · exact hplain n hn
    · rw [List.mem_singleton.mp hn]
      exact hname
  rw [ignoreFiles, List.mem_cons, List.mem_cons] at hfile
  rcases hfile with rfl | rfl | hfile
  · exact hnone _ _ (hbeside ".ignore" (by decide)) (by decide)
  · exact hnone _ _ (hbeside ".gitignore" (by decide)) (by decide)
  · obtain ⟨repo, -, rfl⟩ := Option.map_eq_some_iff.mp (Option.mem_toList.mp hfile)
    refine hnone _ "exclude" ?_ (by decide)
    rw [Path.place_join t.cwd repo (by decide)]
    exact List.getLast?_concat

/-! ## Entries below a directory -/

/-- An entry is below a directory if its location goes on from there. -/
theorem remainder_eq_some {root : Location} {p q : Location × Entry} :
    (if root.isPrefixOf p.1 && decide (p.1 ≠ root) then some (p.1.drop root.length, p.2)
      else none) = some q ↔ q.1 ≠ [] ∧ p = (root ++ q.1, q.2) := by
  obtain ⟨at_, e⟩ := p
  obtain ⟨names, e'⟩ := q
  constructor
  · intro h
    split at h
    · next hbelow =>
      cases h
      obtain ⟨hunder, hne⟩ := Bool.and_eq_true_iff.mp hbelow
      obtain ⟨rest, rfl⟩ := List.isPrefixOf_iff_prefix.mp hunder
      have hrest : rest ≠ [] := by
        rintro rfl
        exact of_decide_eq_true hne (List.append_nil root)
      simp only [List.drop_left]
      exact ⟨hrest, trivial⟩
    · cases h
  · rintro ⟨hne, heq⟩
    cases heq
    have hunder : root.isPrefixOf (root ++ names) = true :=
      List.isPrefixOf_iff_prefix.mpr (List.prefix_append root names)
    have hother : root ++ names ≠ root := fun he => hne (List.append_right_eq_self.mp he)
    simp only [hunder, decide_eq_true hother, Bool.and_self, if_pos, List.drop_left]

theorem mem_below {root names : Location} {e : Entry} :
    (names, e) ∈ t.below root ↔ names ≠ [] ∧ (root ++ names, e) ∈ t.entries := by
  rw [FileTree.below, List.mem_filterMap]
  simp only [remainder_eq_some]
  constructor
  · rintro ⟨p, hmem, hne, rfl⟩
    exact ⟨hne, hmem⟩
  · rintro ⟨hne, hmem⟩
    exact ⟨_, hmem, hne, rfl⟩

theorem pairwise_below (h : t.Sound) (root : Location) :
    (t.below root).Pairwise fun p q => p.1 < q.1 := by
  refine h.ordered.filterMap _ fun p q hlt p' hp q' hq => ?_
  obtain ⟨-, rfl⟩ := remainder_eq_some.mp hp
  obtain ⟨-, rfl⟩ := remainder_eq_some.mp hq
  exact (append_lt_append_iff root).mp hlt

/-! ## Sources -/

namespace FileTree

/-- A file below a directory that has the extension of source files. None of its names from there on
is hidden or that of the build directory. -/
structure IsSource (t : FileTree) (root names : Location) : Prop where
  file : ∃ content, t.get? (root ++ names) = some (.file content)
  extension : ∃ dirs stem, names = dirs ++ [stem ++ ".elm"]
  shown : ∀ n ∈ names, n.toList.head? ≠ some '.' ∧ n ≠ "elm-stuff"

theorem IsSource.ne_nil {root names : Location} (h : t.IsSource root names) : names ≠ [] := by
  obtain ⟨dirs, stem, rfl⟩ := h.extension
  exact List.concat_ne_nil _ dirs

theorem IsSource.plain (h : t.Sound) {root names : Location} (hnames : t.IsSource root names) :
    ∀ n ∈ names, Path.Plain n := by
  obtain ⟨content, hget⟩ := hnames.file
  exact fun n hn => h.plain_of_get? hget n (List.mem_append_right root hn)

end FileTree

section
variable (h : t.Sound) {root : Location} (hfree : Unruled t root)
include h hfree

theorem isSource_iff {names : Location} {content : Content} (hne : names ≠ [])
    (hget : t.get? (root ++ names) = some (.file content)) : t.IsSource root names ↔
      isSourceFile (join "/" names) = true ∧ isReached t root names = true := by
  obtain ⟨dirs, n, rfl⟩ := (List.eq_nil_or_concat' names).resolve_left hne
  have hplain : ∀ x ∈ dirs ++ [n], Path.Plain x := fun x hx =>
    h.plain_of_get? hget x (List.mem_append_right root hx)
  have hdirs : ∀ d ∈ dirs, Path.Plain d := fun d hd => hplain d (List.mem_append_left _ hd)
  have hlast : n ∈ dirs ++ [n] := List.mem_append_right dirs (List.mem_singleton_self n)
  rw [isReached_iff h hfree hget]
  constructor
  · intro hsource
    refine ⟨?_, hsource.shown⟩
    obtain ⟨dirs', stem, heq⟩ := hsource.extension
    have hn : n = stem ++ ".elm" := (List.cons.inj (List.append_inj_right' heq rfl)).1
    exact (isSourceFile_join hdirs (hplain n hlast) (hsource.shown n hlast).1).mpr ⟨stem, hn⟩
  · rintro ⟨hsource, hshown⟩
    obtain ⟨stem, rfl⟩ :=
      (isSourceFile_join hdirs (hplain n hlast) (hshown n hlast).1).mp hsource
    exact ⟨⟨content, hget⟩, ⟨dirs, stem, rfl⟩, hshown⟩

theorem sourceBelow?_eq_some {names : Location} {e : Entry} (hmem : (names, e) ∈ t.below root)
    {path : String} : sourceBelow? t root (names, e) = some path ↔
      t.IsSource root names ∧ path = join "/" names := by
  obtain ⟨hne, hentry⟩ := mem_below.mp hmem
  have hroot : root ++ names ≠ [] := fun hnil => hne (List.append_eq_nil_iff.mp hnil).2
  have hget : t.get? (root ++ names) = some e := (h.get?_eq_some hroot).mpr hentry
  cases e with
  | directory =>
    refine iff_of_false nofun fun ⟨hsource, _⟩ => ?_
    obtain ⟨content, hfile⟩ := hsource.file
    rw [hget] at hfile
    cases hfile
  | file content =>
    rw [isSource_iff h hfree hne hget, ← Bool.and_eq_true_iff]
    simp only [sourceBelow?]
    split
    · next hlisted => simp only [hlisted, Option.some.injEq, true_and, eq_comm]
    · next hlisted => simp only [hlisted, Bool.false_eq_true, false_and, reduceCtorEq]

/-- Whatever the walk finds below the directory are the paths of the sources. -/
theorem mem_sources {path : String} : path ∈ (t.below root).filterMap (sourceBelow? t root) ↔
    ∃ names, t.IsSource root names ∧ path = join "/" names := by
  rw [List.mem_filterMap]
  constructor
  · rintro ⟨⟨names, e⟩, hmem, hpath⟩
    exact ⟨names, (sourceBelow?_eq_some h hfree hmem).mp hpath⟩
  · rintro ⟨names, hsource, hpath⟩
    obtain ⟨content, hget⟩ := hsource.file
    have hroot : root ++ names ≠ [] := fun hnil =>
      hsource.ne_nil (List.append_eq_nil_iff.mp hnil).2
    have hmem : (names, .file content) ∈ t.below root :=
      mem_below.mpr ⟨hsource.ne_nil, (h.get?_eq_some hroot).mp hget⟩
    exact ⟨_, hmem, (sourceBelow?_eq_some h hfree hmem).mpr ⟨hsource, hpath⟩⟩

theorem pairwise_sources : ((t.below root).filterMap (sourceBelow? t root)).Pairwise
    fun p q => Path.pieces p < Path.pieces q := by
  rw [List.pairwise_filterMap]
  refine (pairwise_below h root).imp_of_mem fun {a b} ha hb hlt p hp q hq => ?_
  obtain ⟨hsource, rfl⟩ := (sourceBelow?_eq_some h hfree ha).mp hp
  obtain ⟨hsource', rfl⟩ := (sourceBelow?_eq_some h hfree hb).mp hq
  exact Path.pieces_lt hsource.ne_nil (hsource.plain h) hsource'.ne_nil (hsource'.plain h) hlt

end

/-! ## Walks -/

theorem walk_of_directory {root : String} (h : t.isDirectory root = true) : walk t root =
    (t.below (Path.place t.cwd root)).filterMap (sourceBelow? t (Path.place t.cwd root)) := by
  obtain ⟨at_, hat, hdir⟩ := FileTree.isDirectory_iff.mp h
  rw [← FileTree.locate_eq_place hat, walk, hat]
  simp only [hdir]

/-- A tree of files and directories without rules lists each source once, by the names on the way to
it. Links and names that are no texts are not in such trees. -/
theorem walk_lists (h : t.Sound) {root : String} (hroot : t.isDirectory root = true)
    (hfree : Unruled t (Path.place t.cwd root)) :
    (∀ names, t.IsSource (Path.place t.cwd root) names →
      (walk t root).count (join "/" names) = 1) ∧
    (∀ path ∈ walk t root,
      ∃! names, t.IsSource (Path.place t.cwd root) names ∧ path = join "/" names) ∧
    (walk t root).Pairwise fun p q => Path.pieces p < Path.pieces q := by
  have hsorted := pairwise_sources h hfree
  have hmem : ∀ path, path ∈ walk t root ↔
      ∃ names, t.IsSource (Path.place t.cwd root) names ∧ path = join "/" names := by
    rw [walk_of_directory hroot]
    exact fun _ => mem_sources h hfree
  rw [← walk_of_directory hroot] at hsorted
  have hnodup : (walk t root).Nodup := by
    refine List.nodup_iff_pairwise_ne.mpr (hsorted.imp fun {p q} hlt => ?_)
    rintro rfl
    exact List.lt_irrefl _ hlt
  refine ⟨fun names hsource => ?_, fun path hpath => ?_, hsorted⟩
  · exact List.count_eq_one_of_mem hnodup ((hmem _).mpr ⟨names, hsource, rfl⟩)
  · obtain ⟨names, hsource, rfl⟩ := (hmem path).mp hpath
    refine ⟨names, ⟨hsource, rfl⟩, fun names' ⟨hsource', heq⟩ => ?_⟩
    exact Path.join_names_injective hsource'.ne_nil hsource.ne_nil (hsource'.plain h)
      (hsource.plain h) heq.symm

/-- A hyphen comes before a slash, and yet what is in `a` comes before what is in `a-b`. -/
def orchard : FileTree where
  entries := [
    (["w"], .directory),
    (["w", ".Draft.elm"], .file (.text "")),
    (["w", "a"], .directory),
    (["w", "a", "X.elm"], .file (.text "")),
    (["w", "a-b"], .directory),
    (["w", "a-b", "X.elm"], .file (.text "")),
    (["w", "a-b", "notes.md"], .file (.text "")),
    (["w", "elm-stuff"], .directory),
    (["w", "elm-stuff", "Core.elm"], .file (.text ""))]
  cwd := "/w"

theorem walk_lists_hyphenated :
    orchard.Sound ∧ orchard.isDirectory "." = true ∧ Unruled orchard ["w"] ∧
      (walk orchard ".").count "a/X.elm" = 1 ∧
      (walk orchard ".").Pairwise (fun p q => Path.pieces p < Path.pieces q) ∧
      walk orchard "." = ["a/X.elm", "a-b/X.elm"] ∧ "a-b/X.elm" < "a/X.elm" := by
  have hsound : orchard.Sound := by decide +kernel
  have hroot : orchard.isDirectory "." = true := by decide +kernel
  have hplace : Path.place orchard.cwd "." = ["w"] := by decide +kernel
  have hfree : Unruled orchard ["w"] := unruled_of_absent hsound (by decide +kernel) _
  obtain ⟨honce, -, hsorted⟩ := walk_lists hsound hroot (hplace ▸ hfree)
  have hsource : orchard.IsSource ["w"] ["a", "X.elm"] :=
    ⟨⟨.text "", by decide +kernel⟩, ⟨["a"], "X", by decide +kernel⟩, by decide +kernel⟩
  exact ⟨hsound, hroot, hfree, honce ["a", "X.elm"] (hplace ▸ hsource), hsorted,
    by decide +kernel, by decide +kernel⟩

end UsageGraph
