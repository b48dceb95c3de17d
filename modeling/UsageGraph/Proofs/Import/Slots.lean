import UsageGraph.Proofs.FileTree.Places
import UsageGraph.Proofs.Import.Isolation
import UsageGraph.Proofs.Package.Ids

/-! # Slots of repositories

* `Path.Descends`: a relative path that never goes up.
* `Importer.place_slot`: the place of the slot of a repository.
* `Importer.slots_isolated`: slots lie below the directory of all slots, none of them lies in
  another, and the removal of a slot changes nothing elsewhere.
-/

namespace UsageGraph
open Text
set_option autoImplicit false

/-! ## Paths that go down -/

namespace Path

/-- A relative path without two dots. -/
def Descends (p : String) : Prop := isAbsolute p = false ∧ .up ∉ segments p.toList

/-- The names in a path. -/
def names (p : String) : List String := (way p).map fun w => String.ofList w.text

/-- A place strictly below another one. -/
def Below (at_ above : Location) : Prop := above <+: at_ ∧ above ≠ at_

theorem below_append {at_ : Location} {names : List String} (h : names ≠ []) :
    Below (at_ ++ names) at_ := by
  refine ⟨List.prefix_append _ _, fun he => h ?_⟩
  exact List.append_right_eq_self.mp he.symm

theorem place_join_of_descends {p : String} (h : Descends p) (cwd base : String) :
    place cwd (join base p) = place cwd base ++ names p := by
  have hnames : ∀ w ∈ way p, ∃ s, w = .name s := by
    intro w hw
    obtain ⟨hmem, hhere⟩ := List.mem_filter.mp hw
    cases w with
    | root => exact (inner_of_mem_segments hmem).elim
    | here => exact absurd rfl (of_decide_eq_true hhere)
    | up => exact absurd hmem h.2
    | name s => exact ⟨s, rfl⟩
  rw [place_join cwd base h.1, foldl_climb_names hnames]
  rfl

theorem Plain.descends {s : String} (h : Plain s) : Descends s :=
  ⟨h.relative, by simp [h.segments]⟩

theorem Plain.names {s : String} (h : Plain s) : names s = [s] := by
  simp [Path.names, h.way, Part.text]

end Path

/-! ## Entries of a repository list -/

namespace Repository.Entry

/-- No part of a full name is a dot or two dots; of a record, which nobody has read as an id, both
parts are names of directories. -/
def Ordinary : Entry → Prop
  | fullName s => ∀ part ∈ splitAll '/' s.toList, part ≠ ['.'] ∧ part ≠ ['.', '.']
  | known r => r.id.Ordinary

theorem Ordinary.id {e : Entry} {r : Repository} (h : e.Ordinary) (hr : e.repository = .ok r) :
    r.id.Ordinary := by
  cases e with
  | known r' =>
    cases hr
    exact h
  | fullName s =>
    cases hs : PackageId.parse s with
    | error f =>
      rw [repository, hs] at hr
      cases hr
    | ok id =>
      rw [repository, hs] at hr
      cases hr
      obtain ⟨htext, howner, hname, hslash, hslash'⟩ := PackageId.parse_eq_ok hs
      have hparts : splitAll '/' s.toList = [id.owner.toList, id.name.toList] := by
        rw [htext, splitAll_append, splitAll_of_notMem hslash, splitAll_of_notMem hslash',
          List.singleton_append]
      have hplain : ∀ part : String, part.toList ∈ splitAll '/' s.toList → part ≠ "" →
          '/' ∉ part.toList → Path.Plain part := by
        intro part hmem hne hno
        refine ⟨hne, hno, ?_, ?_⟩
        · rintro rfl
          exact (h _ hmem).1 rfl
        · rintro rfl
          exact (h _ hmem).2 rfl
      rw [hparts] at hplain
      exact ⟨hplain id.owner (by simp) howner hslash, hplain id.name (by simp) hname hslash'⟩

end Repository.Entry

/-! ## Slots -/

namespace Importer
variable (i : Importer) {cwd : String}

theorem place_slot (repo : PackageId) (howner : Path.Descends repo.owner)
    (hname : Path.Descends repo.name) : Path.place cwd (i.slot repo) =
      Path.place cwd i.config.paths.repos ++ (Path.names repo.owner ++ Path.names repo.name) := by
  rw [slot, Path.place_join_of_descends hname, Path.place_join_of_descends howner,
    List.append_assoc]

theorem exists_workdir (cwd : String) (repo : PackageId)
    (h : Path.names repo.owner ++ Path.names repo.name ≠ []) :
    ∃ workdir, Path.absolute? cwd (i.slot repo) = some workdir := by
  refine Option.ne_none_iff_exists'.mp fun hnone => h ?_
  obtain ⟨-, howner, hname⟩ := slot_eq_empty.mp (Path.absolute?_eq_none.mp hnone)
  rw [howner, hname]
  rfl

theorem place_of_ordinary {repo : PackageId} (h : repo.Ordinary) (hcwd : Path.isAbsolute cwd)
    {workdir : String} (hworkdir : Path.absolute? cwd (i.slot repo) = some workdir) :
    Path.place cwd workdir =
      Path.place cwd i.config.paths.repos ++ [repo.owner, repo.name] := by
  rw [Path.place_absolute? hworkdir hcwd, place_slot i repo h.1.descends h.2.descends, h.1.names,
    h.2.names]
  rfl

theorem not_prefix_of_ordinary {repo repo' : PackageId} (h : repo.Ordinary) (h' : repo'.Ordinary)
    (hne : repo ≠ repo') (hcwd : Path.isAbsolute cwd) {workdir workdir' : String}
    (hworkdir : Path.absolute? cwd (i.slot repo) = some workdir)
    (hworkdir' : Path.absolute? cwd (i.slot repo') = some workdir') :
    ¬Path.place cwd workdir <+: Path.place cwd workdir' := by
  rw [place_of_ordinary i h hcwd hworkdir, place_of_ordinary i h' hcwd hworkdir',
    List.prefix_append_right_inj]
  intro hprefix
  have hsame : [repo.owner, repo.name] = [repo'.owner, repo'.name] := hprefix.eq_of_length rfl
  obtain ⟨owner, name⟩ := repo
  obtain ⟨owner', name'⟩ := repo'
  cases hsame
  exact hne rfl

/-- The slot of a repository is strictly below the directory of all slots if no part of its id goes
up, and no slot of an ordinary id is the slot of another or lies in it. What is removed with a slot
lies in it. -/
theorem slots_isolated (hcwd : Path.isAbsolute cwd) :
    (∀ (e : Repository.Entry) r, e.repository = .ok r → Path.Descends r.owner →
      Path.Descends r.name → Path.names r.owner ++ Path.names r.name ≠ [] → ∃ workdir,
        Path.absolute? cwd (i.slot r.id) = some workdir ∧
          Path.Below (Path.place cwd workdir) (Path.place cwd i.config.paths.repos)) ∧
    (∀ (e e' : Repository.Entry) r r', e.repository = .ok r → e'.repository = .ok r' →
      e.Ordinary → e'.Ordinary → r.id ≠ r'.id → ∃ workdir workdir',
        Path.absolute? cwd (i.slot r.id) = some workdir ∧
          Path.absolute? cwd (i.slot r'.id) = some workdir' ∧
          ¬Path.place cwd workdir <+: Path.place cwd workdir' ∧
          ¬Path.place cwd workdir' <+: Path.place cwd workdir) ∧
    ∀ (t t' : FileTree) workdir, t.cwd = cwd → t.removeDirectory workdir = .ok t' →
      ∀ at_, ¬Path.place cwd workdir <+: at_ → t'.get? at_ = t.get? at_ := by
  refine ⟨?_, ?_, ?_⟩
  · intro e r _ howner hname hnames
    obtain ⟨workdir, hworkdir⟩ := exists_workdir i cwd r.id hnames
    refine ⟨workdir, hworkdir, ?_⟩
    rw [Path.place_absolute? hworkdir hcwd, place_slot i r.id howner hname]
    exact Path.below_append hnames
  · intro e e' r r' hr hr' he he' hne
    have hord := he.id hr
    have hord' := he'.id hr'
    have hnames : ∀ id : PackageId, id.Ordinary → Path.names id.owner ++ Path.names id.name ≠ [] := by
      intro id hid
      rw [hid.1.names]
      exact List.cons_ne_nil _ _
    obtain ⟨workdir, hworkdir⟩ := exists_workdir i cwd r.id (hnames r.id hord)
    obtain ⟨workdir', hworkdir'⟩ := exists_workdir i cwd r'.id (hnames r'.id hord')
    exact ⟨workdir, workdir', hworkdir, hworkdir',
      not_prefix_of_ordinary i hord hord' hne hcwd hworkdir hworkdir',
      not_prefix_of_ordinary i hord' hord (Ne.symm hne) hcwd hworkdir' hworkdir⟩
  · intro t t' workdir hcwd' hremove at_ hat
    rw [← hcwd'] at hat
    exact FileTree.get?_of_removeDirectory hremove hat

/-- Repositories in the default directory. -/
def idle : Importer := { quiet with pass := { quiet.pass with config := .default } }

/-- A tree with two slots, of which the name of one starts with the name of the other. -/
def neighbours : FileTree := ⟨[(["w"], .directory), (["w", "_repos"], .directory),
  (["w", "_repos", "me"], .directory), (["w", "_repos", "me", "app"], .directory),
  (["w", "_repos", "me", "app2"], .directory)], "/w"⟩

theorem slots_isolated_neighbours :
    (∃ workdir, Path.absolute? "/w" (idle.slot ⟨"me", "app"⟩) = some workdir ∧
      Path.Below (Path.place "/w" workdir) (Path.place "/w" idle.config.paths.repos)) ∧
    (∃ workdir workdir', Path.absolute? "/w" (idle.slot ⟨"me", "app"⟩) = some workdir ∧
      Path.absolute? "/w" (idle.slot ⟨"me", "app2"⟩) = some workdir' ∧
      ¬Path.place "/w" workdir <+: Path.place "/w" workdir' ∧
      ¬Path.place "/w" workdir' <+: Path.place "/w" workdir) ∧
    ∃ t, neighbours.removeDirectory "_repos/me/app" = .ok t ∧
      t.get? ["w", "_repos", "me", "app2"] = some .directory := by
  have hme : Path.Plain "me" := by refine ⟨?_, ?_, ?_, ?_⟩ <;> decide +kernel
  have happ : Path.Plain "app" := by refine ⟨?_, ?_, ?_, ?_⟩ <;> decide +kernel
  have happ2 : Path.Plain "app2" := by refine ⟨?_, ?_, ?_, ?_⟩ <;> decide +kernel
  have hentry : (Repository.Entry.fullName "me/app").Ordinary := by
    intro part hpart
    revert part
    decide +kernel
  obtain ⟨hbelow, hapart, hremoved⟩ := @slots_isolated idle "/w" (by decide +kernel)
  refine ⟨?_, ?_, ?_⟩
  · exact hbelow (.fullName "me/app") ⟨"me", "app", none, none, none⟩ (by decide +kernel)
      hme.descends happ.descends (by decide +kernel)
  · exact hapart (.fullName "me/app") (.known ⟨"me", "app2", none, none, none⟩)
      ⟨"me", "app", none, none, none⟩ ⟨"me", "app2", none, none, none⟩ (by decide +kernel) rfl
      hentry ⟨hme, happ2⟩ (by decide +kernel)
  · cases h : neighbours.removeDirectory "_repos/me/app" with
    | error e =>
      have hok : (neighbours.removeDirectory "_repos/me/app").isOk = true := by decide +kernel
      rw [h] at hok
      cases hok
    | ok t =>
      refine ⟨t, rfl, ?_⟩
      rw [hremoved neighbours t "_repos/me/app" rfl h ["w", "_repos", "me", "app2"]
        (by decide +kernel)]
      decide +kernel

/-- Slots in a directory that is told from the root on. -/
def anchored : Importer := { quiet with pass := { quiet.pass with
  config := { quiet.config with paths := { quiet.config.paths with repos := "/w/repos" } } } }

/-- A directory beside that of all slots. -/
def bystander : Session := { cloned with
  workspace := ⟨⟨[(["w"], .directory), (["w", "a"], .directory),
    (["w", "a", "keep.txt"], .file (.text "x")), (["w", "repos"], .directory)], "/w"⟩, []⟩ }

/-- A full name may start with two dots. Its slot is then beside the directory of all slots, and what
is there is removed with it. -/
theorem slot_outside :
    let repo : Repository := ⟨"..", "a", none, none, none⟩
    (Repository.Entry.fullName "../a").repository = .ok repo ∧
      (∃ workdir, Path.absolute? "/w" (anchored.slot repo.id) = some workdir ∧
        Path.place "/w" workdir = ["w", "a"] ∧
        ¬Path.Below (Path.place "/w" workdir) (Path.place "/w" anchored.config.paths.repos)) ∧
      bystander.workspace.tree.get? ["w", "a", "keep.txt"] = some (.file (.text "x")) ∧
      (anchored.run repo bystander).result = .ok ⟨0, 0, false⟩ ∧
      (anchored.run repo bystander).state.workspace.tree.get? ["w", "a", "keep.txt"] = none := by
  refine ⟨by decide +kernel, ⟨"/w/repos/../a", by decide +kernel, by decide +kernel, ?_⟩,
    by decide +kernel, by decide +kernel, by decide +kernel⟩
  intro hbelow
  have hprefix : ¬["w", "repos"] <+: ["w", "a"] := by decide
  have hslots : Path.place "/w" anchored.config.paths.repos = ["w", "repos"] := by decide +kernel
  have hslot : Path.place "/w" "/w/repos/../a" = ["w", "a"] := by decide +kernel
  rw [hslots, hslot] at hbelow
  exact hprefix hbelow.1

end Importer
end UsageGraph
