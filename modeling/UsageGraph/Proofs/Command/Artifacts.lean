import UsageGraph.Command.Compiler
import UsageGraph.Proofs.FileTree.Making

/-! # Clearing the artifacts of a checkout

The artifact directory is removed, and then made anew with all directories above it that are
missing. Both go by the path of the checkout. If that path goes up from a directory that is missing,
or that the removal takes away, the way to the artifacts is another one before than after: the
removal finds nothing, or the directory that the path leaves again is made anew.

* `discard_cases`: a directory that goes, one that is not there, and a refusal.
* `clearArtifacts_frames`: what is left alone whatever the path is, and that nothing else is left of
  the artifacts if the path does not go up from where no directory is.
* `clearArtifacts_detours`: what comes of paths that do.
-/

namespace UsageGraph
set_option autoImplicit false

/-! ## The artifact directory -/

theorem plain_buildDir : Path.Plain buildDir := by decide

theorem plain_artifacts : Path.Plain "build-artifacts" := by decide

/-- The place of the artifact directory of a checkout. -/
def artifactsPlace (cwd workdir : String) : Location :=
  Path.place cwd workdir ++ [buildDir, "build-artifacts"]

section
variable (cwd workdir : String)

theorem firm_artifactsPath : Path.Firm (artifactsPath workdir) := plain_artifacts.firm_join _

theorem last_artifactsPath :
    (Path.segments (artifactsPath workdir).toList).getLast? ≠ some .up := by
  rw [artifactsPath, Path.segments_join plain_artifacts.relative, plain_artifacts.segments,
    List.getLast?_concat]
  exact nofun

theorem parts_artifactsPath_ne : Path.parts (artifactsPath workdir) ≠ [] :=
  fun hnil => (firm_artifactsPath workdir).ne_empty (Path.parts_eq_nil.mp hnil)

theorem wayFromRoot_artifactsPath : Path.wayFromRoot cwd (artifactsPath workdir) =
    Path.wayFromRoot cwd workdir ++ [.name buildDir.toList, .name "build-artifacts".toList] := by
  rw [artifactsPath, plain_artifacts.wayFromRoot_join, plain_buildDir.wayFromRoot_join,
    List.append_assoc]
  rfl

theorem place_artifactsPath :
    Path.place cwd (artifactsPath workdir) = artifactsPlace cwd workdir := by
  rw [Path.place_eq, wayFromRoot_artifactsPath, List.foldl_append, ← Path.place_eq, artifactsPlace,
    List.foldl_cons, List.foldl_cons, List.foldl_nil, Path.climb, Path.climb, String.ofList_toList,
    String.ofList_toList, List.append_assoc]
  rfl

end

/-! ## Discarding -/

variable {t : FileTree}

theorem removeDirectory_eq_notFound {path : String}
    (h : t.removeDirectory path = .error .notFound) : t.entry path = .error .notFound := by
  rw [FileTree.removeDirectory] at h
  cases hentry : t.entry path with
  | error cause =>
    rw [hentry] at h
    exact congrArg _ (Except.error.inj h)
  | ok e =>
    rw [hentry] at h
    cases e with
    | file c => cases h
    | directory =>
      obtain ⟨at_, hat, -⟩ := FileTree.entry_eq_ok.mp hentry
      simp only [bind, Except.bind, hat] at h
      split at h <;> cases h

/-- The trees that are left when what is at a path has been discarded. -/
inductive Discards (path : String) (t : FileTree) : FileTree → Prop
  | removed (h : t.isDirectory path = true) : Discards path t (t.erase (Path.place t.cwd path))
  | absent (h : t.entry path = .error .notFound) : Discards path t t

theorem discard_cases {path : String} (hlast : (Path.segments path.toList).getLast? ≠ some .up)
    (t : FileTree) :
    (∃ t', Discards path t t' ∧ discard path t = ⟨.ok (), t', []⟩) ∨
      ∃ f, discard path t = ⟨.error f, t, []⟩ := by
  rw [discard]
  cases hremove : t.removeDirectory path with
  | ok t' =>
    have hdir := FileTree.isDirectory_of_removeDirectory hremove
    have hrun : FileTree.removeAll path t = ⟨.ok (), t', []⟩ := by
      rw [FileTree.removeAll, Task.tryChange, hremove]
      rfl
    rw [FileTree.removeDirectory_of_isDirectory hdir hlast] at hremove
    cases hremove
    exact .inl ⟨_, .removed hdir, Task.recover_of_ok hrun⟩
  | error cause =>
    have hrun : FileTree.removeAll path t = ⟨.error (.io cause), t, []⟩ := by
      rw [FileTree.removeAll, Task.tryChange, hremove]
      rfl
    rw [Task.recover_of_error hrun]
    by_cases hcause : cause = .notFound
    · subst hcause
      exact .inl ⟨t, .absent (removeDirectory_eq_notFound hremove), rfl⟩
    · have hfault : Fault.io cause ≠ .io .notFound := fun h => hcause (Fault.io.inj h)
      rw [if_neg hfault]
      exact .inr ⟨.io cause, rfl⟩

namespace Discards
variable {path : String} {t' : FileTree} (d : Discards path t t')
include d

theorem cwd : t'.cwd = t.cwd := by
  cases d <;> rfl

theorem sound (h : t.Sound) : t'.Sound := by
  cases d with
  | removed _ => exact h.erase _
  | absent _ => exact h

theorem get?_elsewhere {at_ : Location} (h : ¬Path.place t.cwd path <+: at_) :
    t'.get? at_ = t.get? at_ := by
  cases d with
  | removed _ => exact FileTree.get?_erase_elsewhere h
  | absent _ => rfl

theorem get?_of_erase {at_ : Location} {e : Entry}
    (h : (t.erase (Path.place t.cwd path)).get? at_ = some e) : t'.get? at_ = some e := by
  cases d with
  | removed _ => exact h
  | absent _ => exact FileTree.get?_of_erase h

section
variable (hpath : Path.Firm path)
include hpath

/-- Nothing but missing directories keeps the path from being found. -/
theorem eq_notFound {cause : IoCause}
    (h : t.followAll [] (Path.wayFromRoot t.cwd path) = .error cause) : cause = .notFound := by
  have hentry : t.entry path = .error cause ∨ t.entry path = .error .nullInPath := by
    by_cases hnul : '\x00' ∈ path.toList
    · rw [FileTree.entry, FileTree.locate_of_nul hpath hnul]
      exact .inr rfl
    · rw [FileTree.entry, FileTree.locate_of_firm hpath hnul, h]
      exact .inl rfl
  cases d with
  | removed hdir =>
    rw [FileTree.isDirectory] at hdir
    rcases hentry with hentry | hentry <;> rw [hentry] at hdir <;> cases hdir
  | absent hnone =>
    rw [hnone] at hentry
    rcases hentry with hentry | hentry
    · exact (Except.error.inj hentry).symm
    · cases hentry

/-- The path still goes down from a place that is left. -/
theorem founded {base : String} {names : List Path.Part} (hnames : ∀ p ∈ names, ∃ s, p = .name s)
    (hway : Path.wayFromRoot t.cwd path = Path.wayFromRoot t.cwd base ++ names)
    (h : (t.erase (Path.place t.cwd path)).Grounded base) : t'.Founded path := by
  rcases h.founded_or with hfounded | ⟨before, rest, cause, hbase, hfollow, hcause⟩
  · exact (hfounded.down hnames hway).mono d.cwd fun _ => d.get?_of_erase
  · have herror : t.followAll [] (before ++ (rest ++ names)) = .error cause :=
      FileTree.followAll_append_error (FileTree.followAll_of_erase hfollow hcause) _
    have hbefore : Path.wayFromRoot t.cwd path = before ++ (rest ++ names) := by
      rw [hway, ← List.append_assoc]
      exact congrArg (· ++ names) hbase
    exact absurd (d.eq_notFound hpath (hbefore ▸ herror)) hcause

variable (h : t.Sound) (hfounded : t'.Founded path)
include h hfounded

theorem none_below {at_ : Location} (hunder : Path.place t.cwd path <+: at_) (hne : at_ ≠ []) :
    t'.get? at_ = none := by
  cases d with
  | removed _ => exact FileTree.get?_erase_below hunder hne
  | absent hnone =>
    have hplace := (h.missing_of_entry hfounded hpath hnone).1
    by_cases hsame : Path.place t.cwd path = at_
    · exact hsame ▸ hplace
    · refine h.none_below ?_ hunder hsame
      rw [hplace]
      exact nofun

/-- A file on the way would have been met. -/
theorem not_file {above : Location} (habove : above <+: Path.place t.cwd path) (c : Content) :
    t.get? above ≠ some (.file c) := by
  cases d with
  | absent hnone => exact (h.missing_of_entry hfounded hpath hnone).2 above habove c
  | removed hdir =>
    obtain ⟨at_, hat, hget⟩ := FileTree.isDirectory_iff.mp hdir
    rw [FileTree.locate_eq_place hat] at hget
    intro hfile
    by_cases hsame : above = Path.place t.cwd path
    · rw [hsame, hget] at hfile
      cases hfile
    · rw [h.directory_above hget habove hsame] at hfile
      cases hfile

end

end Discards

/-! ## Clearing -/

section
variable (workdir : String)

theorem clearArtifacts_cases (t : FileTree) :
    (∃ t', Discards (artifactsPath workdir) t t' ∧
      clearArtifacts workdir t = FileTree.makeDirectories (artifactsPath workdir) t') ∨
      ∃ f, clearArtifacts workdir t = ⟨.error f, t, []⟩ := by
  rw [clearArtifacts]
  obtain ⟨t', d, hdiscard⟩ | ⟨f, hdiscard⟩ := discard_cases (last_artifactsPath workdir) t
  · exact .inl ⟨t', d, Task.bind_of_quiet hdiscard⟩
  · exact .inr ⟨f, Task.bind_of_error hdiscard⟩

theorem cwd_clearArtifacts (t : FileTree) : (clearArtifacts workdir t).state.cwd = t.cwd := by
  obtain ⟨t', d, hclear⟩ | ⟨f, hclear⟩ := clearArtifacts_cases workdir t
  · rw [hclear, (FileTree.grows_makeDirectories _ t').cwd, d.cwd]
  · rw [hclear]

theorem sound_clearArtifacts (h : t.Sound) : (clearArtifacts workdir t).state.Sound := by
  obtain ⟨t', d, hclear⟩ | ⟨f, hclear⟩ := clearArtifacts_cases workdir t
  · rw [hclear]
    exact FileTree.keeps_makeFrom _ t' (d.sound h)
  · rw [hclear]
    exact h

theorem isDirectory_of_clearArtifacts (h : (clearArtifacts workdir t).result = .ok ()) :
    (clearArtifacts workdir t).state.isDirectory (artifactsPath workdir) = true := by
  obtain ⟨t', d, hclear⟩ | ⟨f, hclear⟩ := clearArtifacts_cases workdir t
  · rw [hclear] at h ⊢
    exact FileTree.isDirectory_of_makeDirectories _ t' (parts_artifactsPath_ne workdir) h
  · rw [hclear] at h
    cases h

theorem directory_of_clearArtifacts (h : (clearArtifacts workdir t).result = .ok ()) :
    (clearArtifacts workdir t).state.get? (artifactsPlace t.cwd workdir) = some .directory := by
  obtain ⟨at_, hat, hget⟩ := FileTree.isDirectory_iff.mp (isDirectory_of_clearArtifacts workdir h)
  have hplace := FileTree.locate_eq_place hat
  rw [cwd_clearArtifacts, place_artifactsPath] at hplace
  exact hplace ▸ hget

theorem kept_of_clearArtifacts {at_ : Location} (h : ¬artifactsPlace t.cwd workdir <+: at_) :
    (clearArtifacts workdir t).state.get? at_ = t.get? at_ ∨
      t.get? at_ = none ∧ (clearArtifacts workdir t).state.get? at_ = some .directory := by
  obtain ⟨t', d, hclear⟩ | ⟨f, hclear⟩ := clearArtifacts_cases workdir t
  · rw [← place_artifactsPath] at h
    rw [hclear, ← d.get?_elsewhere h]
    exact ((FileTree.grows_makeDirectories _ t').kept at_).imp_right And.right
  · rw [hclear]
    exact .inl rfl

/-- What becomes of a tree if the path of the checkout does not go up from where no directory is. -/
theorem clearArtifacts_grounded (h : t.Sound)
    (hground : (t.erase (artifactsPlace t.cwd workdir)).Grounded workdir) :
    (∃ f, clearArtifacts workdir t = ⟨.error f, t, []⟩) ∨
      (∀ at_, ¬at_ <+: artifactsPlace t.cwd workdir →
        (clearArtifacts workdir t).state.get? at_ =
          if artifactsPlace t.cwd workdir <+: at_ then none else t.get? at_) ∧
      ∀ above, above <+: artifactsPlace t.cwd workdir → ∀ c, t.get? above ≠ some (.file c) := by
  obtain ⟨t', d, hclear⟩ | hclear := clearArtifacts_cases workdir t
  · have hpath := firm_artifactsPath workdir
    have hnames : ∀ p ∈ [Path.Part.name buildDir.toList, .name "build-artifacts".toList],
        ∃ s, p = .name s := by simp
    have hplace := place_artifactsPath t.cwd workdir
    have hfounded : t'.Founded (artifactsPath workdir) :=
      d.founded hpath hnames (wayFromRoot_artifactsPath t.cwd workdir) (hplace ▸ hground)
    refine .inr ⟨fun at_ hat => ?_, fun above habove c => ?_⟩
    · rw [hclear, hfounded.get?_makeDirectories (by rw [d.cwd, hplace]; exact hat)]
      split
      · next hunder =>
        refine d.none_below hpath h hfounded (hplace ▸ hunder) ?_
        rintro rfl
        exact hat List.nil_prefix
      · next hapart => exact d.get?_elsewhere (hplace ▸ hapart)
    · exact d.not_file hpath h hfounded (hplace ▸ habove) c
  · exact .inl hclear

end

/-- Clearing gives the checkout a directory for its artifacts and takes nothing but old artifacts.
If the path of the checkout goes up from no directory that is missing without the artifacts, then
they are all gone, only directories above them can be new, and a file in their way stays there. Trees
have no symbolic links, by which the artifacts could have another name. -/
theorem clearArtifacts_frames (h : t.Sound) (workdir : String) :
    let artifacts := artifactsPlace t.cwd workdir
    let cleared := clearArtifacts workdir t
    (cleared.result = .ok () → cleared.state.isDirectory (artifactsPath workdir) = true ∧
      cleared.state.get? artifacts = some .directory) ∧
    (∀ at_, ¬artifacts <+: at_ → cleared.state.get? at_ = t.get? at_ ∨
      t.get? at_ = none ∧ cleared.state.get? at_ = some .directory) ∧
    cleared.state.cwd = t.cwd ∧ cleared.state.Sound ∧
    ((t.erase artifacts).Grounded workdir →
      (cleared.result = .ok () →
        ∀ at_, artifacts <+: at_ → at_ ≠ artifacts → cleared.state.get? at_ = none) ∧
      (∀ at_, ¬artifacts <+: at_ → ¬at_ <+: artifacts →
        cleared.state.get? at_ = t.get? at_) ∧
      ∀ above, above <+: artifacts → ∀ c, t.get? above = some (.file c) →
        (∃ f, cleared.result = .error f) ∧ cleared.state = t) := by
  intro artifacts cleared
  refine ⟨fun hok => ⟨isDirectory_of_clearArtifacts workdir hok,
    directory_of_clearArtifacts workdir hok⟩, fun at_ => kept_of_clearArtifacts workdir,
    cwd_clearArtifacts workdir t, sound_clearArtifacts workdir h, fun hground => ?_⟩
  rcases clearArtifacts_grounded workdir h hground with ⟨f, hfail⟩ | ⟨hget, hfree⟩
  · have hresult : cleared.result = .error f := congrArg Outcome.result hfail
    have hstate : cleared.state = t := congrArg Outcome.state hfail
    refine ⟨fun hok => ?_, fun at_ _ _ => by rw [hstate], fun _ _ _ _ => ⟨⟨f, hresult⟩, hstate⟩⟩
    rw [hresult] at hok
    cases hok
  · refine ⟨fun _ at_ hunder hne => ?_, fun at_ hapart hat => ?_, fun above habove c hfile => ?_⟩
    · have hat : ¬at_ <+: artifacts := fun hat => hne (hat.eq_of_length_le hunder.length_le)
      rw [hget at_ hat, if_pos hunder]
    · rw [hget at_ hat, if_neg hapart]
    · exact absurd hfile (hfree above habove c)

/-- A checkout beside another one, with artifacts and packages. -/
def checkouts : FileTree where
  entries := [
    (["app"], .directory),
    (["app", "elm-stuff"], .directory),
    (["app", "elm-stuff", "build-artifacts"], .directory),
    (["app", "elm-stuff", "build-artifacts", "0.18.0"], .directory),
    (["app", "elm-stuff", "build-artifacts", "0.18.0", "Main.elmi"], .file (.text "stale")),
    (["app", "elm-stuff", "packages"], .directory),
    (["app", "elm-stuff", "packages", "List.elm"], .file (.text "module List exposing (..)")),
    (["lib"], .directory),
    (["lib", "elm-stuff"], .file (.text ""))]
  cwd := "/"

theorem clearArtifacts_frames_packages :
    checkouts.Sound ∧
      (checkouts.erase ["app", "elm-stuff", "build-artifacts"]).Grounded "lib/../app" ∧
      (clearArtifacts "lib/../app" checkouts).state.get?
        ["app", "elm-stuff", "build-artifacts", "0.18.0", "Main.elmi"] = none ∧
      (clearArtifacts "lib/../app" checkouts).state.get?
        ["app", "elm-stuff", "packages", "List.elm"] =
          some (.file (.text "module List exposing (..)")) ∧
      (clearArtifacts "lib" checkouts).state = checkouts := by
  have hsound : checkouts.Sound := by decide +kernel
  have hplace : artifactsPlace checkouts.cwd "lib/../app" =
      ["app", "elm-stuff", "build-artifacts"] := by decide +kernel
  have hground : (checkouts.erase ["app", "elm-stuff", "build-artifacts"]).Grounded
      "lib/../app" := by decide +kernel
  have hok : (clearArtifacts "lib/../app" checkouts).result = .ok () := by decide +kernel
  have hlib : artifactsPlace checkouts.cwd "lib" = ["lib", "elm-stuff", "build-artifacts"] := by
    decide +kernel
  have hground' : (checkouts.erase (artifactsPlace checkouts.cwd "lib")).Grounded "lib" :=
    FileTree.grounded_of_notMem (by decide +kernel)
  obtain ⟨-, -, -, -, hcleared⟩ := clearArtifacts_frames hsound "lib/../app"
  obtain ⟨-, -, -, -, hblocked⟩ := clearArtifacts_frames hsound "lib"
  obtain ⟨hempty, hkept, -⟩ := hcleared (hplace ▸ hground)
  rw [hplace] at hempty hkept
  have hfile : checkouts.get? ["lib", "elm-stuff"] = some (.file (.text "")) := by decide +kernel
  refine ⟨hsound, hground, hempty hok _ (by decide) (by decide), ?_,
    ((hblocked hground').2.2 ["lib", "elm-stuff"] (by rw [hlib]; decide) _ hfile).2⟩
  rw [hkept _ (by decide) (by decide)]
  decide +kernel

/-- The first path leaves the artifacts again by steps up, and what it leaves is made anew. On the
others nothing is found to remove, as one of their directories is not there yet. That one is made,
even where a file is in the way further on. -/
theorem clearArtifacts_detours :
    checkouts.Sound ∧
      (clearArtifacts "app/elm-stuff/build-artifacts/0.18.0/../../.." checkouts).result = .ok () ∧
      (clearArtifacts "app/elm-stuff/build-artifacts/0.18.0/../../.." checkouts).state.get?
        (artifactsPlace checkouts.cwd "app/elm-stuff/build-artifacts/0.18.0/../../.." ++
          ["0.18.0"]) = some .directory ∧
      (clearArtifacts "new/../app" checkouts).result = .ok () ∧
      (clearArtifacts "new/../app" checkouts).state.get?
        (artifactsPlace checkouts.cwd "new/../app" ++ ["0.18.0", "Main.elmi"]) =
          some (.file (.text "stale")) ∧
      (clearArtifacts "new/../lib" checkouts).result = .error (.io .alreadyExists) ∧
      (clearArtifacts "new/../lib" checkouts).state.get? ["new"] = some .directory := by
  decide +kernel

end UsageGraph
