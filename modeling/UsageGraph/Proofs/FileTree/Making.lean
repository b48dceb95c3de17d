import UsageGraph.Proofs.FileTree.Sound
import UsageGraph.Proofs.Path.Remainder
import Mathlib.Data.List.Infix

/-! # Directories that are made

A directory is made with all directories above it that are missing. What can be said of that without
looking at the path is that nothing is lost and nothing but directories comes to it. Where exactly
they come to lie depends on the steps up in the path: a directory that is missing is made even if
the path leaves it again at once.

* `FileTree.Grows`: a tree that has everything that another one has, and more directories.
* `FileTree.grows_makeDirectories`, `FileTree.isDirectory_of_makeDirectories`: what is made.
* `FileTree.Grounded`: a path that goes up from no directory that is missing.
* `FileTree.Founded`: a path that goes down by names from a place that it reaches.
  `FileTree.Grounded.founded_or` finds that place, if nothing else is in the way.
* `FileTree.Founded.get?_makeDirectories`: then directories are made on the way down only.
* `FileTree.Sound.missing_of_entry`: and what is not found has no file above it.
-/

namespace UsageGraph
set_option autoImplicit false

/-! ## Growing trees -/

namespace FileTree
variable {t t' t'' : FileTree} {places : List Location}

/-- The second tree has all that the first one has. What came to it are directories in places where
nothing was. -/
structure Grows (places : List Location) (t t' : FileTree) : Prop where
  cwd : t'.cwd = t.cwd
  kept : ∀ at_, t'.get? at_ = t.get? at_ ∨
    at_ ∈ places ∧ t.get? at_ = none ∧ t'.get? at_ = some .directory

theorem Grows.refl (places : List Location) (t : FileTree) : Grows places t t :=
  ⟨rfl, fun _ => .inl rfl⟩

theorem Grows.get?_of_some (h : Grows places t t') {at_ : Location} {e : Entry}
    (hget : t.get? at_ = some e) : t'.get? at_ = some e := by
  rcases h.kept at_ with hsame | ⟨-, hnone, -⟩
  · rw [hsame, hget]
  · rw [hget] at hnone
    cases hnone

theorem Grows.trans (h : Grows places t t') (h' : Grows places t' t'') : Grows places t t'' where
  cwd := h'.cwd.trans h.cwd
  kept := by
    intro at_
    rcases h'.kept at_ with hsame' | ⟨hmem, hnone', hdir⟩
    · rw [hsame']
      exact h.kept at_
    · rcases h.kept at_ with hsame | ⟨-, -, hdir'⟩
      · exact .inr ⟨hmem, hsame ▸ hnone', hdir⟩
      · rw [hdir'] at hnone'
        cases hnone'

theorem Grows.mono (h : Grows places t t') {more : List Location} (hsub : places ⊆ more) :
    Grows more t t' :=
  ⟨h.cwd, fun at_ => (h.kept at_).imp_right fun ⟨hmem, hrest⟩ => ⟨hsub hmem, hrest⟩⟩

theorem locateSteps_eq_place {path : String} {at_ : Location}
    (h : t.locateSteps path (t.steps path) = .ok at_) : at_ = Path.place t.cwd path := by
  rw [locateSteps] at h
  split at h
  · cases h
  · split at h
    · cases h
    · exact followAll_eq_ok h

/-- Where there are more directories, a way that leads somewhere still does. -/
theorem followAll_mono (h : ∀ at_, t.get? at_ = some .directory → t'.get? at_ = some .directory)
    {at_ last : Location} {ps : List Path.Part} (hlast : t.followAll at_ ps = .ok last) :
    t'.followAll at_ ps = .ok last := by
  induction ps generalizing at_ with
  | nil => exact hlast
  | cons p ps ih =>
    obtain ⟨hdir, next, hnext, hrest⟩ := followAll_cons_eq_ok.mp hlast
    exact followAll_cons_eq_ok.mpr ⟨h at_ hdir, next, hnext, ih hrest⟩

theorem grows_createDirectory {path : String} (h : t.createDirectory path = .ok t') :
    Grows [Path.place t.cwd path] t t' ∧ t'.isDirectory path = true := by
  obtain ⟨at_, hat, hnone, rfl⟩ := createDirectory_eq_ok.mp h
  have hplace := locateSteps_eq_place hat
  have hne : at_ ≠ [] := by
    rintro rfl
    cases hnone
  have hself : (t.put at_ .directory).get? at_ = some .directory := get?_put_self t _ hne
  have hgrows : Grows [Path.place t.cwd path] t (t.put at_ .directory) := by
    refine ⟨rfl, fun at' => ?_⟩
    by_cases hsame : at' = at_
    · subst hsame
      exact .inr ⟨List.mem_singleton.mpr hplace, hnone, hself⟩
    · exact .inl (get?_put_of_ne t _ hsame)
  have hsteps : (t.put at_ .directory).steps path = t.steps path := rfl
  refine ⟨hgrows, isDirectory_iff.mpr ⟨at_, ?_, hself⟩⟩
  rw [locateSteps] at hat
  split at hat
  · cases hat
  · next hpath =>
    split at hat
    · cases hat
    · next hnul =>
      rw [locate, hsteps, locateSteps, if_neg hpath, if_neg hnul,
        followAll_append (followAll_mono (fun _ => hgrows.get?_of_some) hat)]
      split
      · exact followAll_cons_eq_ok.mpr ⟨hself, at_, rfl, rfl⟩
      · rfl

/-! ## Directories with all above them -/

/-- Makes a directory, or finds it there. -/
def secure (path : String) : Task FileTree Unit := (makeDirectory path).recover (settle path)

theorem grows_secure (path : String) (t : FileTree) :
    Grows [Path.place t.cwd path] t (secure path t).state ∧
      ((secure path t).result = .ok () → (secure path t).state.isDirectory path = true) := by
  rw [secure]
  cases hmake : t.createDirectory path with
  | ok t' =>
    obtain ⟨hgrows, hdir⟩ := grows_createDirectory hmake
    rw [Task.recover_of_ok (makeDirectory_of_ok hmake)]
    exact ⟨hgrows, fun _ => hdir⟩
  | error cause =>
    rw [Task.recover_of_error (makeDirectory_of_error hmake), settle_eq]
    refine ⟨.refl _ t, fun hok => ?_⟩
    dsimp only at hok
    split at hok
    · assumption
    · cases hok

section
variable {path : String} (hpath : Path.parts path ≠ []) (above : List String)
include hpath

theorem makeFrom_of_missing (h : t.createDirectory path = .error .notFound) :
    makeFrom (path :: above) t = (makeFrom above >>= fun _ => secure path) t := by
  rw [makeFrom, if_neg hpath, Task.recover_of_error (makeDirectory_of_error h)]
  rfl

theorem makeFrom_of_not_missing (h : t.createDirectory path ≠ .error .notFound) :
    makeFrom (path :: above) t = secure path t := by
  rw [makeFrom, if_neg hpath, secure]
  cases hmake : t.createDirectory path with
  | ok t' =>
    have hmade := makeDirectory_of_ok hmake
    rw [Task.recover_of_ok hmade, Task.recover_of_ok hmade]
  | error cause =>
    have hmade := makeDirectory_of_error hmake
    rw [Task.recover_of_error hmade, Task.recover_of_error hmade]
    cases cause with
    | notFound => exact absurd hmake h
    | _ => rfl

end

/-- What is made on the way to a path are directories, and nothing is lost. -/
theorem grows_makeFrom (paths : List String) (t : FileTree) :
    Grows (paths.map (Path.place t.cwd)) t (makeFrom paths t).state := by
  induction paths generalizing t with
  | nil => exact .refl _ t
  | cons path above ih =>
    rw [List.map_cons]
    have hfirst {at_ : Location} {rest : List Location} : [at_] ⊆ at_ :: rest :=
      List.cons_subset.mpr ⟨List.mem_cons_self, List.nil_subset _⟩
    by_cases hparts : Path.parts path = []
    · rw [makeFrom, if_pos hparts]
      exact .refl _ t
    · by_cases hmissing : t.createDirectory path = .error .notFound
      · rw [makeFrom_of_missing hparts above hmissing, Task.state_bind]
        have habove := (ih t).mono (List.subset_cons_self (Path.place t.cwd path) _)
        cases (makeFrom above t).result with
        | error f => exact habove
        | ok _ =>
          have hself := (grows_secure path (makeFrom above t).state).1
          rw [(ih t).cwd] at hself
          exact habove.trans (hself.mono hfirst)
      · rw [makeFrom_of_not_missing hparts above hmissing]
        exact (grows_secure path t).1.mono hfirst

theorem isDirectory_of_makeFrom {path : String} {above : List String} (hpath : Path.parts path ≠ [])
    (h : (makeFrom (path :: above) t).result = .ok ()) :
    (makeFrom (path :: above) t).state.isDirectory path = true := by
  by_cases hmissing : t.createDirectory path = .error .notFound
  · rw [makeFrom_of_missing hpath above hmissing] at h ⊢
    obtain ⟨_, habove, hself⟩ := Task.bind_eq_ok _ h
    rw [Task.state_bind_ok _ habove]
    exact (grows_secure path _).2 hself
  · rw [makeFrom_of_not_missing hpath above hmissing] at h ⊢
    exact (grows_secure path t).2 h

theorem keeps_makeDirectory (path : String) : (makeDirectory path).Keeps Sound := by
  intro t ht
  cases hmake : t.createDirectory path with
  | ok t' =>
    rw [makeDirectory_of_ok hmake]
    exact ht.createDirectory hmake
  | error cause =>
    rw [makeDirectory_of_error hmake]
    exact ht

theorem keeps_settle (path : String) (f : Fault) : (settle path f).Keeps Sound :=
  Task.keeps_of_state fun t => by rw [settle_eq]

theorem keeps_makeFrom (paths : List String) : (makeFrom paths).Keeps Sound := by
  induction paths with
  | nil => exact Task.keeps_of_state fun _ => rfl
  | cons path above ih =>
    rw [makeFrom]
    split
    · exact Task.keeps_of_state fun _ => rfl
    · refine (keeps_makeDirectory path).recover fun f => ?_
      split
      · exact ih.bind fun _ => (keeps_makeDirectory path).recover (keeps_settle path)
      · exact keeps_settle path f

section
variable (path : String) (t : FileTree)

theorem grows_makeDirectories :
    Grows ((Path.ancestors path).map (Path.place t.cwd)) t (makeDirectories path t).state :=
  grows_makeFrom (Path.ancestors path) t

theorem isDirectory_of_makeDirectories (hpath : Path.parts path ≠ [])
    (h : (makeDirectories path t).result = .ok ()) :
    (makeDirectories path t).state.isDirectory path = true :=
  isDirectory_of_makeFrom hpath h

end

/-! ## Steps up -/

/-- No step up starts from a directory that is missing. -/
def Grounded (t : FileTree) (path : String) : Prop :=
  ∀ ps, ps <+: Path.wayFromRoot t.cwd path → ps.getLast? = some .up →
    t.followAll [] ps ≠ .error .notFound

instance (t : FileTree) (path : String) : Decidable (t.Grounded path) :=
  decidable_of_iff (∀ ps ∈ (Path.wayFromRoot t.cwd path).inits, ps.getLast? = some .up →
    t.followAll [] ps ≠ .error .notFound)
    (forall_congr' fun ps => imp_congr_left (List.mem_inits ps _))

theorem grounded_of_notMem {path : String} (h : .up ∉ Path.wayFromRoot t.cwd path) :
    t.Grounded path :=
  fun _ hps hlast _ => h (hps.subset (List.mem_of_getLast? hlast))

/-- Behind the last step up there are nothing but names. -/
theorem exists_names {ps : List Path.Part} (h : ∀ p ∈ ps, p.Inner ∧ p ≠ .here) :
    ∃ before names, ps = before ++ names ∧ (∀ p ∈ names, ∃ s, p = .name s) ∧
      (before = [] ∨ before.getLast? = some .up) := by
  induction ps using List.reverseRecOn with
  | nil => exact ⟨[], [], rfl, fun p hp => absurd hp List.not_mem_nil, .inl rfl⟩
  | append_singleton ps p ih =>
    obtain ⟨hp, hhere⟩ := h p (List.mem_append_right _ List.mem_cons_self)
    cases p with
    | root => exact hp.elim
    | here => exact absurd rfl hhere
    | up => exact ⟨ps ++ [.up], [], (List.append_nil _).symm,
        fun p hp => absurd hp List.not_mem_nil, .inr List.getLast?_concat⟩
    | name s =>
      obtain ⟨before, names, rfl, hnames, hbefore⟩ := ih fun p hp => h p (List.mem_append_left _ hp)
      refine ⟨before, names ++ [.name s], List.append_assoc .., fun p hp => ?_, hbefore⟩
      rcases List.mem_append.mp hp with hp | hp
      · exact hnames p hp
      · exact ⟨s, List.mem_singleton.mp hp⟩

/-- A way that has gone wrong goes no further. -/
theorem followAll_append_error {at_ : Location} {ps : List Path.Part} {cause : IoCause}
    (h : t.followAll at_ ps = .error cause) (qs : List Path.Part) :
    t.followAll at_ (ps ++ qs) = .error cause := by
  induction ps generalizing at_ with
  | nil => cases h
  | cons p ps ih =>
    rw [followAll_cons] at h
    rw [List.cons_append, followAll_cons]
    cases hget : t.get? at_ with
    | none => rwa [hget] at h
    | some e =>
      rw [hget] at h
      cases e with
      | file c => exact h
      | directory =>
        cases hnext : follow at_ p with
        | error cause' => rwa [hnext] at h
        | ok next =>
          rw [hnext] at h
          exact ih h

theorem directory_of_followAll_append {at_ last : Location} {ps qs : List Path.Part} {p : Path.Part}
    (h : t.followAll at_ (ps ++ p :: qs) = .ok last) :
    t.get? (ps.foldl Path.climb at_) = some .directory := by
  obtain ⟨middle, hmiddle, hrest⟩ := followAll_append_eq_ok.mp h
  rw [← followAll_eq_ok hmiddle]
  exact (followAll_cons_eq_ok.mp hrest).1

theorem follow_ne_notFound (at_ : Location) (p : Path.Part) : follow at_ p ≠ .error .notFound := by
  intro h
  cases p with
  | name s =>
    rw [follow] at h
    split at h <;> cases h
  | _ => cases h

/-- A way that ends at nothing leads to something missing. -/
theorem exists_missing {at_ : Location} {ps : List Path.Part}
    (h : t.followAll at_ ps = .error .notFound) :
    ∃ taken x, taken <+: ps ∧ t.followAll at_ taken = .ok x ∧ t.get? x = none := by
  induction ps generalizing at_ with
  | nil => cases h
  | cons p ps ih =>
    rw [followAll_cons] at h
    cases hget : t.get? at_ with
    | none => exact ⟨[], at_, List.nil_prefix, rfl, hget⟩
    | some e =>
      rw [hget] at h
      cases e with
      | file c => cases h
      | directory =>
        cases hnext : follow at_ p with
        | error cause =>
          rw [hnext] at h
          exact absurd (hnext.trans h) (follow_ne_notFound at_ p)
        | ok next =>
          rw [hnext] at h
          obtain ⟨taken, x, htaken, hx, hnone⟩ := ih h
          exact ⟨p :: taken, x, List.cons_prefix_cons.mpr ⟨rfl, htaken⟩,
            followAll_cons_eq_ok.mpr ⟨hget, next, hnext, hx⟩, hnone⟩

/-- An erased tree is worse at nothing but finding. -/
theorem followAll_of_erase {at_ start : Location} {ps : List Path.Part} {cause : IoCause}
    (h : (t.erase at_).followAll start ps = .error cause) (hcause : cause ≠ .notFound) :
    t.followAll start ps = .error cause := by
  induction ps generalizing start with
  | nil => cases h
  | cons p ps ih =>
    rw [followAll_cons] at h ⊢
    cases hget : (t.erase at_).get? start with
    | none =>
      rw [hget] at h
      exact absurd (Except.error.inj h).symm hcause
    | some e =>
      rw [get?_of_erase hget]
      rw [hget] at h
      cases e with
      | file c => exact h
      | directory =>
        cases hnext : follow start p with
        | error cause' => rwa [hnext] at h
        | ok next =>
          rw [hnext] at h
          exact ih h

/-- The path goes down by names from a place that it reaches. -/
def Founded (t : FileTree) (path : String) : Prop :=
  ∃ before names, Path.wayFromRoot t.cwd path = before ++ names ∧
    (∀ p ∈ names, ∃ s, p = .name s) ∧ ∃ ground, t.followAll [] before = .ok ground

section
variable {path : String}

theorem inner_of_mem_wayFromRoot {cwd : String} {p : Path.Part}
    (h : p ∈ Path.wayFromRoot cwd path) : p.Inner ∧ p ≠ .here := by
  rw [Path.wayFromRoot] at h
  split at h
  · exact Path.inner_of_mem_way h
  · exact (List.mem_append.mp h).elim Path.inner_of_mem_way Path.inner_of_mem_way

theorem Grounded.founded_or (h : t.Grounded path) : t.Founded path ∨
    ∃ before names cause, Path.wayFromRoot t.cwd path = before ++ names ∧
      t.followAll [] before = .error cause ∧ cause ≠ .notFound := by
  obtain ⟨before, names, hway, hnames, hbefore⟩ :=
    exists_names fun p (hp : p ∈ Path.wayFromRoot t.cwd path) => inner_of_mem_wayFromRoot hp
  cases hfollow : t.followAll [] before with
  | ok ground => exact .inl ⟨before, names, hway, hnames, ground, hfollow⟩
  | error cause =>
    refine .inr ⟨before, names, cause, hway, hfollow, ?_⟩
    rintro rfl
    rcases hbefore with rfl | hlast
    · cases hfollow
    · exact h before ⟨names, hway.symm⟩ hlast hfollow

namespace Founded
variable (h : t.Founded path)
include h

theorem mono (hcwd : t'.cwd = t.cwd)
    (hdirs : ∀ at_, t.get? at_ = some .directory → t'.get? at_ = some .directory) :
    t'.Founded path := by
  obtain ⟨before, names, hway, hnames, ground, hground⟩ := h
  exact ⟨before, names, by rw [hcwd, hway], hnames, ground, followAll_mono hdirs hground⟩

theorem down {q : String} {more : List Path.Part} (hmore : ∀ p ∈ more, ∃ s, p = .name s)
    (hway : Path.wayFromRoot t.cwd q = Path.wayFromRoot t.cwd path ++ more) : t.Founded q := by
  obtain ⟨before, names, hbefore, hnames, hground⟩ := h
  refine ⟨before, names ++ more, ?_, fun p hp => (List.mem_append.mp hp).elim (hnames p) (hmore p),
    hground⟩
  rw [hway, hbefore, List.append_assoc]

/-- What is missing on the way is met going down. -/
theorem under_of_missing {taken : List Path.Part} (htaken : taken <+: Path.wayFromRoot t.cwd path)
    (hmissing : t.get? (taken.foldl Path.climb []) ≠ some .directory) :
    taken.foldl Path.climb [] <+: Path.place t.cwd path := by
  obtain ⟨before, names, hway, hnames, ground, hground⟩ := h
  rw [Path.place_eq, hway, List.foldl_append, Path.foldl_climb_names hnames]
  rcases List.prefix_or_prefix_of_prefix (hway ▸ htaken) (List.prefix_append before names) with
    hshort | hlong
  · obtain ⟨rest, rfl⟩ := hshort
    cases rest with
    | nil =>
      rw [List.append_nil]
      exact List.prefix_append _ _
    | cons p rest => exact absurd (directory_of_followAll_append hground) hmissing
  · obtain ⟨extra, rfl⟩ := hlong
    have hextra : extra <+: names := by
      rw [hway] at htaken
      exact (List.prefix_append_right_inj before).mp htaken
    rw [List.foldl_append, Path.foldl_climb_names fun p hp => hnames p (hextra.subset hp)]
    exact (List.prefix_append_right_inj _).mpr (hextra.map _)

/-- Directories are made on the way down to the path only. -/
theorem get?_makeDirectories {at_ : Location} (hat : ¬at_ <+: Path.place t.cwd path) :
    (makeDirectories path t).state.get? at_ = t.get? at_ := by
  rcases (grows_makeDirectories path t).kept at_ with hsame | ⟨hmem, hnone, -⟩
  · exact hsame
  · obtain ⟨p, hp, rfl⟩ := List.mem_map.mp hmem
    rw [Path.place_eq] at hat hnone
    have hmissing : t.get? ((Path.wayFromRoot t.cwd p).foldl Path.climb []) ≠ some .directory := by
      rw [hnone]
      exact nofun
    exact absurd (h.under_of_missing (Path.wayFromRoot_of_mem_ancestors hp t.cwd) hmissing) hat

end Founded

theorem exists_missing_of_entry (hpath : Path.Firm path) (h : t.entry path = .error .notFound) :
    ∃ taken x, taken <+: Path.wayFromRoot t.cwd path ∧ t.followAll [] taken = .ok x ∧
      t.get? x = none := by
  have hnul : '\x00' ∉ path.toList := by
    intro hnul
    rw [entry, locate_of_nul hpath hnul] at h
    cases h
  rw [entry, locate_of_firm hpath hnul] at h
  cases hway : t.followAll [] (Path.wayFromRoot t.cwd path) with
  | error cause =>
    rw [hway] at h
    cases h
    exact exists_missing hway
  | ok at_ =>
    rw [hway] at h
    cases hget : t.get? at_ with
    | none => exact ⟨_, at_, List.prefix_refl _, hway, hget⟩
    | some e =>
      simp only [bind, Except.bind, hget] at h
      cases h

/-- No file stands above a place that nothing is found at, if the way to it goes down. -/
theorem Sound.missing_of_entry (hsound : t.Sound) (hfounded : t.Founded path)
    (hpath : Path.Firm path) (h : t.entry path = .error .notFound) :
    t.get? (Path.place t.cwd path) = none ∧
      ∀ above, above <+: Path.place t.cwd path → ∀ c, t.get? above ≠ some (.file c) := by
  obtain ⟨taken, x, htaken, hx, hnone⟩ := exists_missing_of_entry hpath h
  have hmissing : t.get? x ≠ some .directory := by
    rw [hnone]
    exact nofun
  have hunder : x <+: Path.place t.cwd path := by
    rw [followAll_eq_ok hx] at hmissing ⊢
    exact hfounded.under_of_missing htaken hmissing
  have hplace : t.IsPlace x := hsound.isPlace_of_followAll
    (fun p hp => (inner_of_mem_wayFromRoot (htaken.subset hp)).1)
    ⟨fun n hn => absurd hn List.not_mem_nil, rfl⟩ hx
  have hbelow : ∀ at_, x <+: at_ → t.get? at_ = none := by
    intro at_ hat
    by_cases hsame : x = at_
    · exact hsame ▸ hnone
    · exact hsound.none_below hmissing hat hsame
  refine ⟨hbelow _ hunder, fun above habove c hfile => ?_⟩
  rcases List.prefix_or_prefix_of_prefix habove hunder with hshort | hlong
  · by_cases hsame : above = x
    · rw [hsame, hnone] at hfile
      cases hfile
    · rw [hsound.directory_above_dropLast hplace.above hshort hsame] at hfile
      cases hfile
  · rw [hbelow above hlong] at hfile
    cases hfile

end

end FileTree
end UsageGraph
