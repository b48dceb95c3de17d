import UsageGraph.FileTree.Tasks
import UsageGraph.Proofs.FileTree.Places
import UsageGraph.Proofs.Tasks

/-! # Files that are written into a directory

* `FileTree.get?_put`: an entry is put in one place and changes no other.
* `FileTree.followAll_put`: a file that is put where no directory is stands in nobody's way.
* `FileTree.Opens`: a path that leads to a directory in which names can be looked up.
* `FileTree.Opens.makeDirectories`: such a directory is made by doing nothing.
* `FileTree.Opens.writeFile_put`, `FileTree.readText_of_writeFile_of_ne`: files in such a directory
  do not hinder each other and keep what they hold.
-/

namespace UsageGraph
set_option autoImplicit false

/-! ## Paths of names in a directory -/

namespace Path

theorem mem_join_iff {p : String} (h : isAbsolute p = false) {c : Char} (hc : c ≠ '/')
    (base : String) : c ∈ (join base p).toList ↔ c ∈ base.toList ∨ c ∈ p.toList := by
  rw [join, if_neg (by rw [h]; exact Bool.false_ne_true)]
  split
  · next hbase => simp [hbase]
  · split <;> simp [hc]

theorem join_injective {p q base : String} (hp : isAbsolute p = false) (hq : isAbsolute q = false)
    (h : join base p = join base q) : p = q := by
  rw [join, join, hp, hq, if_neg Bool.false_ne_true, if_neg Bool.false_ne_true] at h
  split at h
  · exact h
  · split at h <;> exact (String.append_right_inj _).mp h

theorem Plain.firm_join {name : String} (h : Plain name) (dir : String) : Firm (join dir name) := by
  refine Firm.join ⟨?_, ?_⟩ dir
  · rw [leaf_of_notMem h.2.1]
    exact fun hnil => h.1 (String.toList_eq_nil_iff.mp hnil)
  · rw [leaf_of_notMem h.2.1]
    exact fun hdot => h.2.2.1 (String.toList_injective hdot)

theorem Plain.wayFromRoot_join {name : String} (h : Plain name) (cwd dir : String) :
    wayFromRoot cwd (join dir name) = wayFromRoot cwd dir ++ [.name name.toList] := by
  rw [wayFromRoot, wayFromRoot, isAbsolute_join h.relative, way_join h.relative, h.way]
  split
  · rfl
  · rw [List.append_assoc]

end Path

namespace FileTree
variable {t : FileTree}

/-! ## Entries -/

theorem lookup_insert (at_ at' : Location) (e : Entry) (es : List (Location × Entry)) :
    (insert at_ e es).lookup at' = if at' = at_ then some e else es.lookup at' := by
  induction es with
  | nil =>
    by_cases h : at' = at_
    · simp [insert, h]
    · simp [insert, h, List.lookup_cons, beq_false_of_ne h]
  | cons p es ih =>
    obtain ⟨l, x⟩ := p
    rw [insert]
    split
    · next hl =>
      subst hl
      by_cases h : at' = at_
      · simp [h]
      · simp [h, List.lookup_cons, beq_false_of_ne h]
    · next hl =>
      split
      · by_cases h : at' = at_
        · simp [h]
        · simp [h, List.lookup_cons, beq_false_of_ne h]
      · rw [List.lookup_cons, ih, List.lookup_cons]
        by_cases h : at' = at_
        · simp [h, beq_false_of_ne hl]
        · simp [h]

section
variable (t) (at_ at' : Location) (e : Entry)

@[simp] theorem get?_root : t.get? [] = some .directory := rfl

theorem get?_put : (t.put at_ e).get? at' =
    if at' = [] then some .directory else if at' = at_ then some e else t.get? at' := by
  rw [get?, get?, put, lookup_insert]
  split <;> rfl

theorem get?_put_self {at_ : Location} (h : at_ ≠ []) : (t.put at_ e).get? at_ = some e := by
  rw [get?_put, if_neg h, if_pos rfl]

theorem get?_put_of_ne {at_ at' : Location} (h : at' ≠ at_) :
    (t.put at_ e).get? at' = t.get? at' := by
  rw [get?_put, if_neg h]
  split
  · next hroot => rw [hroot, get?_root]
  · rfl

end

/-! ## Steps -/

theorem followAll_append_eq_ok {at_ last : Location} {ps qs : List Path.Part} :
    t.followAll at_ (ps ++ qs) = .ok last ↔
      ∃ middle, t.followAll at_ ps = .ok middle ∧ t.followAll middle qs = .ok last := by
  induction ps generalizing at_ with
  | nil => simp [followAll]
  | cons p ps ih =>
    simp only [List.cons_append, followAll_cons_eq_ok, ih]
    constructor
    · rintro ⟨hdir, next, hnext, middle, hmiddle, hlast⟩
      exact ⟨middle, ⟨hdir, next, hnext, hmiddle⟩, hlast⟩
    · rintro ⟨middle, ⟨hdir, next, hnext, hmiddle⟩, hlast⟩
      exact ⟨hdir, next, hnext, middle, hmiddle, hlast⟩

theorem followAll_append {at_ middle : Location} {ps : List Path.Part}
    (h : t.followAll at_ ps = .ok middle) (qs : List Path.Part) :
    t.followAll at_ (ps ++ qs) = t.followAll middle qs := by
  induction ps generalizing at_ with
  | nil =>
    cases h
    rfl
  | cons p ps ih =>
    obtain ⟨hdir, next, hnext, hrest⟩ := followAll_cons_eq_ok.mp h
    rw [List.cons_append, followAll_cons, hdir]
    simp only [hnext]
    exact ih hrest

theorem start_of_followAll {at_ last : Location} {ps : List Path.Part}
    (h : t.followAll at_ ps = .ok last) (hlast : t.get? last = some .directory) :
    t.get? at_ = some .directory := by
  cases ps with
  | nil =>
    cases h
    exact hlast
  | cons p ps => exact (followAll_cons_eq_ok.mp h).1

/-- On a way to a directory dots say nothing. -/
theorem followAll_of_filter {at_ last : Location} {ps : List Path.Part}
    (h : t.followAll at_ (ps.filter (· ≠ .here)) = .ok last)
    (hlast : t.get? last = some .directory) : t.followAll at_ ps = .ok last := by
  induction ps generalizing at_ with
  | nil => exact h
  | cons p ps ih =>
    by_cases hp : p = .here
    · subst hp
      rw [List.filter_cons_of_neg (by simp)] at h
      exact followAll_cons_eq_ok.mpr ⟨start_of_followAll h hlast, at_, rfl, ih h⟩
    · rw [List.filter_cons_of_pos (by simpa using hp)] at h
      obtain ⟨hdir, next, hnext, hrest⟩ := followAll_cons_eq_ok.mp h
      exact followAll_cons_eq_ok.mpr ⟨hdir, next, hnext, ih hrest⟩

section
variable {at_ : Location} (h : t.get? at_ ≠ some .directory) (c : Content)
include h

theorem ne_root_of_get? : at_ ≠ [] := by
  rintro rfl
  exact h rfl

theorem directory_put_iff {at' : Location} :
    (t.put at_ (.file c)).get? at' = some .directory ↔ t.get? at' = some .directory := by
  by_cases hsame : at' = at_
  · subst hsame
    rw [get?_put_self t _ (ne_root_of_get? h)]
    exact iff_of_false nofun h
  · rw [get?_put_of_ne t _ hsame]

theorem isDirectoryAt_put (at' : Location) :
    (t.put at_ (.file c)).isDirectoryAt at' = t.isDirectoryAt at' := by
  rw [Bool.eq_iff_iff, isDirectoryAt, isDirectoryAt, beq_iff_eq, beq_iff_eq]
  exact directory_put_iff h c

theorem followAll_put {start last : Location} {ps : List Path.Part} :
    (t.put at_ (.file c)).followAll start ps = .ok last ↔ t.followAll start ps = .ok last := by
  induction ps generalizing start with
  | nil => rfl
  | cons p ps ih => simp only [followAll_cons_eq_ok, directory_put_iff h, ih]

end

/-! ## Runs -/

section
variable {t' : FileTree}

theorem makeDirectory_of_ok {path : String} (h : t.createDirectory path = .ok t') :
    makeDirectory path t = ⟨.ok (), t', []⟩ := by
  rw [makeDirectory, Task.tryChange, h]
  rfl

theorem makeDirectory_of_error {path : String} {cause : IoCause}
    (h : t.createDirectory path = .error cause) :
    makeDirectory path t = ⟨.error (.io cause), t, []⟩ := by
  rw [makeDirectory, Task.tryChange, h]
  rfl

theorem settle_eq (path : String) (f : Fault) (t : FileTree) :
    settle path f t = ⟨if t.isDirectory path then .ok () else .error f, t, []⟩ := by
  rw [settle, Task.bind_of_quiet (rfl : Task.state t = ⟨.ok t, t, []⟩)]
  split <;> rfl

end

/-! ## Directories -/

/-- The path leads to a directory. The empty path leads to the working directory, in which a name
can be looked up as in any other. -/
structure Opens (t : FileTree) (dir : String) (at_ : Location) : Prop where
  way : t.followAll [] (Path.wayFromRoot t.cwd dir) = .ok at_
  directory : t.get? at_ = some .directory
  nul : '\x00' ∉ dir.toList

namespace Opens
variable {dir : String} {at_ : Location} (h : t.Opens dir at_)
include h

theorem put {at' : Location} (hat : t.get? at' ≠ some .directory) (c : Content) :
    (t.put at' (.file c)).Opens dir at_ where
  way := (followAll_put hat c).mpr h.way
  directory := (directory_put_iff hat c).mpr h.directory
  nul := h.nul

/-- What a name in the directory leads to depends on nothing that the directory holds. -/
theorem locate {name : String} (hname : Path.Plain name) : t.locate (Path.join dir name) =
    if '\x00' ∈ name.toList then .error .nullInPath else follow at_ (.name name.toList) := by
  have hmem := Path.mem_join_iff hname.relative (by decide : '\x00' ≠ '/') dir
  split
  · next hnul => exact locate_of_nul (hname.firm_join dir) (hmem.mpr (.inr hnul))
  · next hnul =>
    rw [locate_of_firm (hname.firm_join dir) fun hjoin => (hmem.mp hjoin).elim h.nul hnul,
      hname.wayFromRoot_join, followAll_append h.way, followAll_cons, h.directory]
    cases follow at_ (.name name.toList) <;> rfl

theorem locateSteps (hne : dir ≠ "") {ps : List Path.Part}
    (hps : ps.filter (· ≠ .here) = Path.wayFromRoot t.cwd dir) :
    t.locateSteps dir ps = .ok at_ := by
  rw [FileTree.locateSteps, if_neg fun hnil => hne (String.toList_eq_nil_iff.mp hnil),
    if_neg h.nul]
  exact followAll_of_filter (hps ▸ h.way) h.directory

theorem isDirectory (hne : dir ≠ "") : t.isDirectory dir = true := by
  refine isDirectory_iff.mpr ⟨at_, h.locateSteps hne ?_, h.directory⟩
  rw [List.filter_append, filter_steps]
  cases Path.endsInSlash dir <;> exact List.append_nil _

theorem createDirectory (hne : dir ≠ "") : t.createDirectory dir = .error .alreadyExists := by
  rw [FileTree.createDirectory, h.locateSteps hne (filter_steps dir)]
  simp only [bind, Except.bind, h.directory]

theorem settle (hne : dir ≠ "") (f : Fault) : FileTree.settle dir f t = ⟨.ok (), t, []⟩ := by
  rw [settle_eq, if_pos (h.isDirectory hne)]

/-- A directory that is there is made by doing nothing. -/
theorem makeDirectories : (FileTree.makeDirectories dir t).result = .ok () ∧
    (FileTree.makeDirectories dir t).state = t := by
  rw [FileTree.makeDirectories, Path.ancestors, makeFrom]
  split
  · exact ⟨rfl, rfl⟩
  · next hparts =>
    have hne : dir ≠ "" := fun he => hparts (Path.parts_eq_nil.mpr he)
    have hsettle := h.settle hne (.io .alreadyExists)
    rw [Task.recover_of_error (makeDirectory_of_error (h.createDirectory hne))]
    exact ⟨congrArg Outcome.result hsettle, congrArg Outcome.state hsettle⟩

end Opens

/-! ## Files -/

theorem writeFile_eq_ok {t' : FileTree} {p : String} {c : Content} :
    t.writeFile p c = .ok t' ↔ ∃ at_, t.locate p = .ok at_ ∧ t.get? at_ ≠ some .directory ∧
      Path.endsInSlash p = false ∧ t' = t.put at_ (.file c) := by
  rw [writeFile]
  cases t.locate p with
  | error cause => simp [bind, Except.bind]
  | ok at_ =>
    by_cases hdir : t.get? at_ = some .directory
    · simp [bind, Except.bind, isDirectoryAt, hdir]
    · cases Path.endsInSlash p <;>
        simp [bind, Except.bind, isDirectoryAt, hdir, @eq_comm _ t']

theorem readText_of_get? {p : String} {at_ : Location} {s : String} (hat : t.locate p = .ok at_)
    (hget : t.get? at_ = some (.file (.text s))) : t.readText p = .ok s := by
  have hentry : t.entry p = .ok (.file (.text s)) := entry_eq_ok.mpr ⟨at_, hat, hget⟩
  rw [readText, readContent, hentry]
  rfl

/-- A file is written into a directory that is there. -/
theorem opens_of_writeFile {t' : FileTree} {dir name : String} {c : Content}
    (hname : Path.Plain name) (h : t.writeFile (Path.join dir name) c = .ok t') :
    ∃ at_, t.Opens dir at_ ∧ t.locate (Path.join dir name) = .ok (at_ ++ [name]) ∧
      t.get? (at_ ++ [name]) ≠ some .directory ∧ t' = t.put (at_ ++ [name]) (.file c) := by
  obtain ⟨last, hlocate, hfree, -, rfl⟩ := writeFile_eq_ok.mp h
  have hnul : '\x00' ∉ (Path.join dir name).toList := by
    intro hmem
    rw [locate_of_nul (hname.firm_join dir) hmem] at hlocate
    cases hlocate
  have hway := hlocate
  rw [locate_of_firm (hname.firm_join dir) hnul, hname.wayFromRoot_join] at hway
  obtain ⟨at_, hat, hname'⟩ := followAll_append_eq_ok.mp hway
  obtain ⟨hdir, next, hnext, hlast⟩ := followAll_cons_eq_ok.mp hname'
  cases hlast
  have hplace : last = at_ ++ [name] := by
    rw [follow_eq_ok hnext, Path.climb, String.ofList_toList]
  subst hplace
  have hmem := Path.mem_join_iff hname.relative (by decide : '\x00' ≠ '/') dir
  exact ⟨at_, ⟨hat, hdir, fun hdir => hnul (hmem.mpr (.inl hdir))⟩, hlocate, hfree, rfl⟩

section
variable {dir name : String} {c : Content} (hname : Path.Plain name)
include hname

theorem Opens.eq_of_locate {at_ last : Location} (h : t.Opens dir at_)
    (hlast : t.locate (Path.join dir name) = .ok last) : last = at_ ++ [name] := by
  rw [h.locate hname] at hlast
  split at hlast
  · cases hlast
  · rw [follow_eq_ok hlast, Path.climb, String.ofList_toList]

/-- A file that is put anywhere does not hinder another. -/
theorem Opens.writeFile_put {at_ at' : Location} (h : t.Opens dir at_)
    (hat : t.get? at' ≠ some .directory) (c' : Content) :
    ((t.put at' (.file c')).writeFile (Path.join dir name) c).map (fun _ => ()) =
      (t.writeFile (Path.join dir name) c).map fun _ => () := by
  rw [writeFile, writeFile, (h.put hat c').locate hname, h.locate hname]
  cases (if '\x00' ∈ name.toList then Except.error IoCause.nullInPath
    else follow at_ (.name name.toList)) with
  | error cause => rfl
  | ok last =>
    simp only [bind, Except.bind, isDirectoryAt_put hat]
    split
    · rfl
    · split <;> rfl

theorem readText_of_writeFile {t' : FileTree} {text : String}
    (h : t.writeFile (Path.join dir name) (.text text) = .ok t') :
    t'.readText (Path.join dir name) = .ok text := by
  obtain ⟨at_, hopens, hat, hfree, rfl⟩ := opens_of_writeFile hname h
  have hat' := (hopens.put hfree (.text text)).locate hname
  rw [← hopens.locate hname, hat] at hat'
  exact readText_of_get? hat' (get?_put_self _ _ (ne_root_of_get? hfree))

/-- Another file in the directory keeps its text. -/
theorem readText_of_writeFile_of_ne {t' : FileTree} {other text : String}
    (hother : Path.Plain other) (hne : name ≠ other)
    (htext : t.readText (Path.join dir name) = .ok text)
    (h : t.writeFile (Path.join dir other) c = .ok t') :
    t'.readText (Path.join dir name) = .ok text := by
  obtain ⟨at_, hopens, -, hfree, rfl⟩ := opens_of_writeFile hother h
  obtain ⟨last, hlast, hget⟩ := entry_eq_ok.mp (entry_of_readText htext)
  have hplace := hopens.eq_of_locate hname hlast
  have hlast' := (hopens.put hfree c).locate hname
  rw [← hopens.locate hname, hlast] at hlast'
  have hapart : last ≠ at_ ++ [other] := by
    rw [hplace]
    exact fun he => hne (List.cons.inj (List.append_cancel_left he)).1
  exact readText_of_get? hlast' (by rw [get?_put_of_ne _ _ hapart, hget])

end

end FileTree
end UsageGraph
