import UsageGraph.Proofs.Store.RoundTrip
import Mathlib.Data.List.Basic

/-! # What a write leaves alone

Repositories share the rows of files and symbols, so what is written for one of them can be seen by
another. All that can change there is the module of a file.

* `Store.FilesNamed`: the rows of files are under the ids of files that were given.
* `Reference.refreshed`: a reference after its files were given once more.
* `Store.referencesFrom_replaceReferences_of_ne`: what becomes of the references of another
  repository.
* `Store.Framed`, `Store.framed_run`: what every operation of a session leaves as it is.
  `Store.module_of_other_file` has two files that share a row.
-/

namespace UsageGraph
set_option autoImplicit false

/-! ## Modules that are given again -/

namespace FileRef

/-- A file with the module that was last given under its id. -/
def refreshed (gs : List FileRef) (f : FileRef) : FileRef :=
  { f with module := (lastModuleWhere (fun g => g.id = f.id) gs).or f.module }

/-- Where ids tell files apart, the module is given for the file itself. -/
theorem refreshed_of_accepted {gs : List FileRef} {f : FileRef}
    (hgs : ∀ g ∈ gs, PackageId.Accepted g.repo) (hf : PackageId.Accepted f.repo) :
    f.refreshed gs = { f with module := (lastModule gs f.repo f.file).or f.module } := by
  have hsame : gs.filter (fun g => g.id = f.id) =
      gs.filter fun g => g.repo = f.repo ∧ g.file = f.file := by
    refine List.filter_congr fun g hg => decide_eq_decide.mpr ⟨id_injective (hgs g hg) hf, ?_⟩
    rintro ⟨hrepo, hfile⟩
    rw [id, id, hrepo, hfile]
  rw [refreshed, lastModuleWhere, hsame]
  rfl

end FileRef

namespace Reference

/-- A reference after some files were given. -/
def refreshed (gs : List FileRef) (r : Reference) : Reference :=
  { r with referer := r.referer.refreshed gs, referred := r.referred.refreshed gs }

end Reference

namespace Store
open Reference

/-! ## Rows of files -/

/-- Every row is under the id of a file that was given, and names that file. -/
def FilesNamed (s : Store) (gs : List FileRef) : Prop :=
  ∀ id row, s.files.get? id = some row → ∃ g ∈ gs, g.id = id ∧ g.repo = row.repo ∧ g.file = row.path

section
variable {s : Store} {gs : List FileRef}

theorem FilesNamed.putFile (h : s.FilesNamed gs) (f : FileRef) :
    (s.putFile f).FilesNamed (gs ++ [f]) := by
  intro id row hrow
  by_cases hid : id = f.id
  · subst hid
    rw [Store.putFile, Table.get?_insert_self] at hrow
    cases hold : s.files.get? f.id with
    | none =>
      rw [hold] at hrow
      cases hrow
      exact ⟨f, List.mem_concat_self, rfl, rfl, rfl⟩
    | some old =>
      rw [hold] at hrow
      cases hrow
      obtain ⟨g, hg, hgiven⟩ := h f.id old hold
      exact ⟨g, List.mem_append_left _ hg, hgiven⟩
  · rw [get?_putFile_of_ne hid] at hrow
    obtain ⟨g, hg, hgiven⟩ := h id row hrow
    exact ⟨g, List.mem_append_left _ hg, hgiven⟩

theorem FilesNamed.putReference (h : s.FilesNamed gs) (repo : String) (r : Reference) :
    (putReference repo s r).FilesNamed (gs ++ r.fileRefs) := by
  have hfiles := (h.putFile r.referer).putFile r.referred
  rw [putReference_eq]
  intro id row hrow
  change (s.link r).files.get? id = some row at hrow
  rw [link, files_putSymbol] at hrow
  obtain ⟨g, hg, hgiven⟩ := hfiles id row hrow
  rw [List.append_assoc] at hg
  exact ⟨g, hg, hgiven⟩

theorem FilesNamed.foldl (h : s.FilesNamed gs) (repo : String) (rs : List Reference) :
    (rs.foldl (Store.putReference repo) s).FilesNamed (gs ++ rs.flatMap fileRefs) := by
  induction rs generalizing s gs with
  | nil =>
    rw [List.flatMap_nil, List.append_nil]
    exact h
  | cons r rs ih =>
    rw [List.flatMap_cons, ← List.append_assoc]
    exact ih (h.putReference repo r)

theorem filesNamed_run (ops : List Operation) :
    (run ops).FilesNamed ((given ops).flatMap fileRefs) := by
  induction ops using List.reverseRecOn with
  | nil => exact nofun
  | append_singleton ops op ih =>
    rw [run_concat, given_concat, List.flatMap_append]
    rcases op.apply_cases (run ops) with ⟨hgiven, rows, hrows⟩ | ⟨repo, rs, rfl⟩ | ⟨repo, is, rfl⟩
    · rw [hgiven, hrows, List.flatMap_nil, List.append_nil]
      exact ih
    · exact @FilesNamed.foldl ((run ops).dropReferences repo) _ ih repo rs
    · rw [Operation.given, List.flatMap_nil, List.append_nil]
      exact ih

/-- A row keeps its file and takes over the last module that is given under its id. -/
theorem get?_putFile_of_some {id : String} {old : FileRow} (h : s.files.get? id = some old)
    (f : FileRef) : (s.putFile f).files.get? id =
      some { old with module := (FileRef.lastModuleWhere (fun g => g.id = id) [f]).or old.module } := by
  by_cases hid : id = f.id
  · subst hid
    rw [putFile, Table.get?_insert_self, h, FileRef.lastModuleWhere]
    cases hm : f.module <;> simp [hm]
  · rw [get?_putFile_of_ne hid, h, FileRef.lastModuleWhere]
    simp [Ne.symm hid]

theorem get?_files_foldl {id : String} {old : FileRow} (h : s.files.get? id = some old)
    (repo : String) (rs : List Reference) : (rs.foldl (putReference repo) s).files.get? id =
      some { old with module :=
        (FileRef.lastModuleWhere (fun g => g.id = id) (rs.flatMap fileRefs)).or old.module } := by
  induction rs using List.reverseRecOn with
  | nil => exact h
  | append_singleton rs r ih =>
    rw [List.foldl_append, List.foldl_cons, List.foldl_nil, putReference_eq]
    change ((rs.foldl (putReference repo) s).link r).files.get? id = _
    rw [link, files_putSymbol, get?_putFile_of_some (get?_putFile_of_some ih r.referer)]
    have hgiven : (rs ++ [r]).flatMap fileRefs = rs.flatMap fileRefs ++ ([r.referer] ++ [r.referred]) := by
      rw [List.flatMap_append, List.flatMap_singleton]
      rfl
    simp only [hgiven, FileRef.lastModuleWhere_append, Option.or_assoc]

theorem get?_symbols_foldl {id name : String} (h : s.symbols.get? id = some name) (repo : String)
    (rs : List Reference) : (rs.foldl (putReference repo) s).symbols.get? id = some name := by
  induction rs generalizing s with
  | nil => exact h
  | cons r rs ih =>
    refine ih ?_
    rw [putReference_eq]
    change (s.link r).symbols.get? id = some name
    rw [link, putSymbol]
    split
    · exact h
    · next hnew =>
      have hne : id ≠ r.symbolId := by
        rintro rfl
        exact hnew (Table.contains_iff.mpr ⟨name, h⟩)
      exact (Table.get?_insert_of_ne _ _ hne).trans h

/-! ## References of other repositories -/

theorem fileRef?_foldl (hnamed : s.FilesNamed gs) {id : String} {f : FileRef}
    (h : s.fileRef? id = some f) (repo : String) (rs : List Reference) :
    (rs.foldl (putReference repo) s).fileRef? id = some (f.refreshed (rs.flatMap fileRefs)) := by
  obtain ⟨row, hrow, rfl⟩ := Option.map_eq_some_iff.mp h
  obtain ⟨g, -, hid, hrepo, hfile⟩ := hnamed id row hrow
  have hsame : FileRef.id ⟨row.repo, row.path, row.module⟩ = id := by
    rw [← hid, FileRef.id, FileRef.id, hrepo, hfile]
  rw [fileRef?, get?_files_foldl hrow, Option.map_some, FileRef.refreshed, hsame]

theorem reference?_foldl (hnamed : s.FilesNamed gs) {p : String × ReferenceRow} {x : Reference}
    (h : s.reference? p = some x) (repo : String) (rs : List Reference) :
    (rs.foldl (putReference repo) s).reference? p = some (x.refreshed (rs.flatMap fileRefs)) := by
  simp only [reference?, Option.bind_eq_bind, Option.bind_eq_some_iff] at h
  obtain ⟨symbol, hsymbol, referer, hreferer, referred, hreferred, h⟩ := h
  cases h
  simp only [reference?, get?_symbols_foldl hsymbol, fileRef?_foldl hnamed hreferer,
    fileRef?_foldl hnamed hreferred]
  rfl

/-- The rows of another repository stay, as none of them has the id of a new reference. -/
theorem rows_replaceReferences_of_ne {repo other : String} (hne : other ≠ repo) {rs : List Reference}
    (hids : ∀ r ∈ rs, ∀ row, s.references.get? r.id = some row → row.repo ≠ other) :
    (s.replaceReferences repo rs).2.references.filter (fun p => p.2.repo = other) =
      s.references.filter fun p => p.2.repo = other := by
  refine Table.ext_get? fun id => ?_
  rw [Table.get?_filter, Table.get?_filter, get?_references_replace]
  cases hlatest : latest rs id with
  | none =>
    rw [Option.map_none, Option.none_or, Option.filter_filter]
    refine congrArg (fun keep => (s.references.get? id).filter keep) (funext fun row => ?_)
    by_cases hrow : row.repo = other
    · simp [hrow, hne]
    · simp [hrow]
  | some r =>
    obtain ⟨hr, rfl⟩ := latest_eq_some hlatest
    have hold : (s.references.get? r.id).filter (fun row => decide (row.repo = other)) = none := by
      cases hrow : s.references.get? r.id with
      | none => rfl
      | some row => simp [hids r hr row hrow]
    rw [hold]
    simp [referenceRow, Ne.symm hne]

/-- The order of references does not depend on modules. -/
theorem mergeSort_refreshed (gs : List FileRef) (rs : List Reference) :
    (rs.map (Reference.refreshed gs)).mergeSort (fun a b => (comparePlaces a b).isLE) =
      (rs.mergeSort fun a b => (comparePlaces a b).isLE).map (Reference.refreshed gs) :=
  (List.map_mergeSort (f := Reference.refreshed gs) (s := fun a b => (comparePlaces a b).isLE)
    fun _ _ _ _ => rfl).symm

theorem referencesFrom_replaceReferences_of_ne (hnamed : s.FilesNamed gs) {repo other : String}
    (hlinked : s.Linked other) (hne : other ≠ repo) {rs : List Reference}
    (hids : ∀ r ∈ rs, ∀ x ∈ s.referencesFrom other, x.id ≠ r.id) :
    (s.replaceReferences repo rs).2.referencesFrom other =
      (s.referencesFrom other).map (Reference.refreshed (rs.flatMap fileRefs)) := by
  have hrows : ∀ r ∈ rs, ∀ row, s.references.get? r.id = some row → row.repo ≠ other := by
    intro r hr row hrow hrepo
    have hp : (r.id, row) ∈ s.references.entries := Table.mem_entries.mpr hrow
    obtain ⟨x, hx⟩ := Option.isSome_iff_exists.mp (hlinked (r.id, row) hp hrepo)
    exact hids r hr x (hrepo ▸ mem_referencesFrom_of_mem hp hx) (id_of_reference? hx)
  have hentries := congrArg Table.entries (rows_replaceReferences_of_ne hne hrows)
  change (s.replaceReferences repo rs).2.references.entries.filter _ = _ at hentries
  rw [referencesFrom, hentries, referencesFrom, ← mergeSort_refreshed, List.map_filterMap]
  refine congrArg (List.mergeSort · _) (List.filterMap_congr fun p hp => ?_)
  obtain ⟨hp, hrepo⟩ := List.mem_filter.mp hp
  obtain ⟨x, hx⟩ := Option.isSome_iff_exists.mp (hlinked p hp (of_decide_eq_true hrepo))
  rw [hx, Option.map_some]
  exact @reference?_foldl (s.dropReferences repo) gs hnamed p x hx repo rs

theorem exists_fileRef? {p : String × ReferenceRow} {x : Reference} (h : s.reference? p = some x)
    {f : FileRef} (hf : f ∈ x.fileRefs) : ∃ id, s.fileRef? id = some f := by
  simp only [reference?, Option.bind_eq_bind, Option.bind_eq_some_iff] at h
  obtain ⟨_, -, referer, hreferer, referred, hreferred, h⟩ := h
  cases h
  rcases List.mem_cons.mp hf with rfl | hf
  · exact ⟨_, hreferer⟩
  · rw [List.mem_singleton.mp hf]
    exact ⟨_, hreferred⟩

/-- The files of a stored reference have been given. -/
theorem FilesNamed.of_mem (hnamed : s.FilesNamed gs) {repo : String} {x : Reference}
    (hx : x ∈ s.referencesFrom repo) {f : FileRef} (hf : f ∈ x.fileRefs) :
    ∃ g ∈ gs, g.repo = f.repo := by
  obtain ⟨row, -, -, hx⟩ := mem_referencesFrom.mp hx
  obtain ⟨id, hid⟩ := exists_fileRef? hx hf
  obtain ⟨row, hrow, rfl⟩ := Option.map_eq_some_iff.mp hid
  obtain ⟨g, hg, -, hrepo, -⟩ := hnamed id row hrow
  exact ⟨g, hg, hrepo⟩

theorem refreshed_of_mem (hnamed : s.FilesNamed gs) {rs : List Reference}
    (hrepos : ∀ g ∈ gs ++ rs.flatMap fileRefs, PackageId.Accepted g.repo) {repo : String}
    {x : Reference} (hx : x ∈ s.referencesFrom repo) {f : FileRef} (hf : f ∈ x.fileRefs) :
    f.refreshed (rs.flatMap fileRefs) =
      { f with module := (FileRef.lastModule (rs.flatMap fileRefs) f.repo f.file).or f.module } := by
  obtain ⟨g, hg, hrepo⟩ := hnamed.of_mem hx hf
  refine FileRef.refreshed_of_accepted (fun g hg => hrepos g (List.mem_append_right _ hg)) ?_
  rw [← hrepo]
  exact hrepos g (List.mem_append_left _ hg)

end

/-! ## Intervals of other repositories -/

theorem intervalsOf_replaceIntervals_of_ne (s : Store) {repo other : String} (hne : other ≠ repo)
    (is : List Interval) : (s.replaceIntervals repo is).2.intervalsOf other = s.intervalsOf other := by
  have hold : (s.intervals.filter fun i => i.owner ≠ repo).filter (fun i => i.owner = other) =
      s.intervals.filter fun i => i.owner = other := by
    rw [List.filter_filter]
    refine List.filter_congr fun i _ => ?_
    by_cases hi : i.owner = other
    · simp [hi, hne]
    · simp [hi]
  have hnew : (is.map fun i => { i with owner := repo }).filter (fun i => i.owner = other) = [] := by
    simp [Ne.symm hne]
  rw [intervalsOf, replaceIntervals, List.filter_append, hold, hnew, List.append_nil]
  rfl

/-! ## All operations -/

/-- No query about references or intervals tells the two stores apart. -/
structure SameFindings (s t : Store) : Prop where
  referencesFrom : ∀ repo, t.referencesFrom repo = s.referencesFrom repo
  referencesTo : ∀ repo version, t.referencesTo repo version = s.referencesTo repo version
  intervalsOf : ∀ repo, t.intervalsOf repo = s.intervalsOf repo

theorem sameFindings_withRepositories (s : Store) (rows : Table RepositoryRow) :
    s.SameFindings (s.withRepositories rows) := ⟨fun _ => rfl, fun _ _ => rfl, fun _ => rfl⟩

/-- What operations leave alone in a store that was given some files. -/
structure Framed (s : Store) (gs : List FileRef) : Prop where
  /-- New references, with ids that no reference of another repository has, leave all references of
  that one, and change their modules to those that were last given under the ids of their files. -/
  replaceReferences : ∀ repo rs other, other ≠ repo →
    (∀ r ∈ rs, ∀ x ∈ s.referencesFrom other, x.id ≠ r.id) →
    (s.replaceReferences repo rs).2.referencesFrom other =
      (s.referencesFrom other).map (Reference.refreshed (rs.flatMap fileRefs))
  /-- Where all repositories are package ids, these are modules of the files themselves. -/
  modules : ∀ (rs : List Reference) other, (∀ g ∈ gs ++ rs.flatMap fileRefs, PackageId.Accepted g.repo) →
    ∀ x ∈ s.referencesFrom other, ∀ f ∈ x.fileRefs, f.refreshed (rs.flatMap fileRefs) =
      { f with module := (FileRef.lastModule (rs.flatMap fileRefs) f.repo f.file).or f.module }
  replaceReferences_rest : ∀ repo rs,
    (∀ other, (s.replaceReferences repo rs).2.intervalsOf other = s.intervalsOf other) ∧
      (s.replaceReferences repo rs).2.pending = s.pending
  replaceIntervals : ∀ repo is other, other ≠ repo →
    (s.replaceIntervals repo is).2.intervalsOf other = s.intervalsOf other
  replaceIntervals_rest : ∀ repo is,
    (∀ other, (s.replaceIntervals repo is).2.referencesFrom other = s.referencesFrom other) ∧
      (∀ other version, (s.replaceIntervals repo is).2.referencesTo other version =
        s.referencesTo other version) ∧
      (s.replaceIntervals repo is).2.pending = s.pending
  enqueue : ∀ r, s.SameFindings (s.enqueue r).2
  upsert : ∀ r l, s.SameFindings (s.upsert r l)
  markImported : ∀ repo, s.SameFindings (s.markImported repo)

/-- An operation for one repository shows in the findings about another only as a module of a file,
and this only if it stores references that give one. -/
theorem framed_run (ops : List Operation) : (run ops).Framed ((given ops).flatMap fileRefs) where
  replaceReferences _ _ other hne hids :=
    referencesFrom_replaceReferences_of_ne (filesNamed_run ops) (linked_run ops other) hne hids
  modules _ _ hrepos _ hx _ hf := refreshed_of_mem (filesNamed_run ops) hrepos hx hf
  replaceReferences_rest repo rs := by
    obtain ⟨hrepositories, hintervals⟩ := rest_replaceReferences (run ops) repo rs
    refine ⟨fun other => ?_, ?_⟩
    · rw [intervalsOf, hintervals, intervalsOf]
    · rw [pending, hrepositories, pending]
  replaceIntervals _ is _ hne := intervalsOf_replaceIntervals_of_ne _ hne is
  replaceIntervals_rest _ _ := ⟨fun _ => rfl, fun _ _ => rfl, rfl⟩
  enqueue r := by
    obtain ⟨rows, hrows⟩ := enqueue_eq (run ops) r
    rw [hrows]
    exact sameFindings_withRepositories _ rows
  upsert _ _ := sameFindings_withRepositories _ _
  markImported repo := by
    obtain ⟨rows, hrows⟩ := markImported_eq (run ops) repo
    rw [hrows]
    exact sameFindings_withRepositories _ rows

/-- A use of the helper whose repository and path make up the id of the file in another way. -/
def otherReference : Reference :=
  { helperReference "me/tool" "2" 3 none with referred := ⟨"lib/util/src", "Util.elm", some "Other"⟩ }

/-- The reference of the earlier session is there with the module of the last one that shares the
row of its file. -/
theorem framed_run_shared :
    ((run earlierSession).replaceReferences "me/tool"
      [helperReference "me/tool" "2" 3 (some "Tool"), helperReference "me/tool" "3" 4 none]).2.referencesFrom
        "me/app" = [helperReference "me/app" "1" 3 (some "Tool")] := by
  refine ((framed_run earlierSession).replaceReferences "me/tool" _ "me/app" (by decide) ?_).trans ?_
  · decide +kernel
  · decide +kernel

/-- The module of a file changes although no reference names the file. -/
theorem module_of_other_file :
    (∀ other, ∀ x ∈ (run earlierSession).referencesFrom other, x.id ≠ otherReference.id) ∧
    (run earlierSession).referencesFrom "me/app" = [helperReference "me/app" "1" 3 (some "Util")] ∧
    ((run earlierSession).replaceReferences "me/tool" [otherReference]).2.referencesFrom "me/app" =
      [helperReference "me/app" "1" 3 (some "Other")] ∧
    ∀ f ∈ otherReference.fileRefs, ¬(f.repo = "lib/util" ∧ f.file = "src/Util.elm") := by
  refine ⟨fun other x hx hid => ?_, by decide +kernel, by decide +kernel, by decide +kernel⟩
  obtain ⟨row, hrow, -⟩ := mem_referencesFrom.mp hx
  rw [hid] at hrow
  have hnone : (run earlierSession).references.get? otherReference.id = none := by decide +kernel
  rw [hnone] at hrow
  cases hrow

end Store
end UsageGraph
