import UsageGraph.Proofs.Import.Steps

/-! # Failures of an import

* `Importer.slot_eq_empty`: the only slot that cannot be made absolute.
* `Importer.run_of_slotless`, `Importer.run_of_failed_checkout`, `Importer.run_of_checkout`: the three
  ways in which an import ends.
* `Importer.Stored`: what an import leaves in the store.
* `Importer.run_isolated`: an import fails where there is no slot, no clone or no commit, and then
  changes no finding. Otherwise each pass that ends well is stored, whatever the other one did.
-/

namespace UsageGraph
set_option autoImplicit false

/-! ## Slots -/

theorem Path.join_eq_empty {base p : String} : Path.join base p = "" ↔ base = "" ∧ p = "" := by
  rw [Path.join]
  split
  · next habs =>
    refine ⟨fun h => ?_, fun h => h.2⟩
    rw [h] at habs
    cases habs
  · split
    · next hbase => rw [String.toList_eq_nil_iff.mp hbase, and_iff_right rfl]
    · next hbase =>
      have hne : base ≠ "" := fun h => hbase (String.toList_eq_nil_iff.mpr h)
      split <;> simp [hne]

theorem Path.absolute?_eq_none {cwd p : String} : Path.absolute? cwd p = none ↔ p = "" := by
  rw [Path.absolute?, ← String.toList_eq_nil_iff]
  split <;> simp [*]

namespace Importer
variable {i : Importer}

theorem slot_eq_empty {repo : PackageId} :
    i.slot repo = "" ↔ i.config.paths.repos = "" ∧ repo.owner = "" ∧ repo.name = "" := by
  rw [slot, Path.join_eq_empty, Path.join_eq_empty, and_assoc]

/-! ## Around the main part -/

theorem result_absolute (path : String) (s : Session) :
    (Session.onTree (FileTree.absolute path) s).result =
      (Path.absolute? s.cwd path).elim (.error (.io .emptyPath)) .ok := by
  rw [Session.onTree, Session.onWorkspace, Task.result_onPart, Workspace.onTree, Task.result_onPart,
    FileTree.absolute, Task.result_observe, Session.cwd]
  cases Path.absolute? s.workspace.tree.cwd path <;> rfl

theorem result_emptySlot (workdir : String) (t : FileTree) :
    (emptySlot workdir t).result = .ok () := by
  refine Task.result_recover_value t (FileTree.removeAll workdir) (a := ()) fun f t => ?_
  cases f with
  | io cause => cases cause <;> rfl
  | _ => rfl

theorem result_cleanUp (workdir : String) (s : Session) : (cleanUp workdir s).result = .ok () := by
  have hempty : (Session.onTree (emptySlot workdir) s).result = .ok () :=
    result_emptySlot workdir s.workspace.tree
  rw [cleanUp, Task.result_bind_ok _ hempty]
  rfl

theorem store_cleanUp (workdir : String) (s : Session) :
    (cleanUp workdir s).state.store = s.store := by
  have hempty : (Session.onTree (emptySlot workdir) s).result = .ok () :=
    result_emptySlot workdir s.workspace.tree
  rw [cleanUp, Task.state_bind_ok _ hempty]
  rfl

variable {repo : Repository} {s : Session}

theorem importOne_of_slotless (h : Path.absolute? s.cwd (i.slot repo.id) = none) :
    (i.importOne repo s).result = .error (.io .emptyPath) ∧
      (i.importOne repo s).state.store = s.store := by
  have habsolute := result_absolute (i.slot repo.id) s
  rw [h] at habsolute
  rw [importOne, Task.result_bind_error _ habsolute, Task.state_bind_error _ habsolute]
  exact ⟨rfl, rfl⟩

theorem importOne_of_slot {workdir : String}
    (h : Path.absolute? s.cwd (i.slot repo.id) = some workdir) :
    (i.importOne repo s).result = (i.importInto repo workdir (forget workdir s).state).result ∧
      (i.importOne repo s).state =
        (cleanUp workdir (i.importInto repo workdir (forget workdir s).state).state).state := by
  have habsolute := result_absolute (i.slot repo.id) s
  rw [h] at habsolute
  have hforget : (forget workdir s).result = .ok () := rfl
  have hinto := Task.result_attempt (forget workdir s).state (i.importInto repo workdir)
  rw [importOne, Task.result_bind_ok _ habsolute, Task.state_bind_ok _ habsolute,
    Task.result_bind_ok _ (Task.result_report _ _), Task.state_bind_ok _ (Task.result_report _ _)]
  change ((forget workdir >>= _) s).result = _ ∧ ((forget workdir >>= _) s).state = _
  rw [Task.result_bind_ok _ hforget, Task.state_bind_ok _ hforget, Task.result_bind_ok _ hinto,
    Task.state_bind_ok _ hinto, Task.state_attempt, Task.result_bind_ok _ (result_cleanUp _ _),
    Task.state_bind_ok _ (result_cleanUp _ _)]
  cases (i.importInto repo workdir (forget workdir s).state).result with
  | ok summary => exact ⟨rfl, rfl⟩
  | error f => exact ⟨rfl, rfl⟩

theorem result_markOrReport (t : Session) : (i.markOrReport repo.id t).result = .ok () :=
  Task.result_recover_value t _ (a := ()) fun _ _ => rfl

theorem result_run : (i.run repo s).result = (i.importOne repo s).result := by
  rw [run, Task.result_bind_ok _ (Task.result_attempt s _),
    Task.result_bind_ok _ (result_markOrReport _)]
  rfl

theorem state_markOrReport (repo : PackageId) (t : Session) : (i.markOrReport repo t).state =
    { t with store := (i.mark repo.fullName t.store).state } :=
  Task.state_recover_value t _ fun _ _ => rfl

theorem state_run : (i.run repo s).state =
    (i.markOrReport repo.id (i.importOne repo s).state).state := by
  rw [run, Task.state_bind_ok _ (Task.result_attempt s _),
    Task.state_bind_ok _ (result_markOrReport _)]
  rfl

theorem store_run (hstore : i.store = .standard) : (i.run repo s).state.store =
    (i.importOne repo s).state.store.markImported repo.id.fullName := by
  rw [state_run, state_markOrReport, mark, hstore]
  rfl

/-! ## Isolation -/

/-- What an import leaves of a checked out repository: the references and the intervals that its
passes end with, and none of a pass that failed. -/
structure Stored (i : Importer) (repo : Repository) (workdir head : String) (s : Session)
    (summary : ImportSummary) (t : Store) : Prop where
  references : ∀ references, (i.passed repo.id workdir head s).result = .ok references →
    t.referencesFrom repo.id.fullName =
      (s.store.replaceReferences repo.id.fullName references).2.referencesFrom repo.id.fullName
  no_references : ∀ f, (i.passed repo.id workdir head s).result = .error f →
    t.referencesFrom repo.id.fullName = []
  intervals : ∀ history, (i.replayed repo.id workdir head s).result = .ok history →
    t.intervalsOf repo.id.fullName = history.intervals
  no_intervals : ∀ f, (i.replayed repo.id workdir head s).result = .error f →
    t.intervalsOf repo.id.fullName = []
  count_references : summary.references = (t.referencesFrom repo.id.fullName).length.toUInt64
  count_intervals : summary.intervals = (t.intervalsOf repo.id.fullName).length.toUInt64

theorem intervalsOf_saved (i : Importer) (repo : Repository) (workdir head : String) (s : Session)
    (references : List Reference) :
    (saved repo references ((i.replayed repo.id workdir head s).result.toOption.getD .none)
      s.store).intervalsOf repo.id.fullName =
        ((i.replayed repo.id workdir head s).result.toOption.getD .none).intervals := by
  cases h : (i.replayed repo.id workdir head s).result with
  | error f =>
    exact Store.intervalsOf_replaceIntervals _ (fun _ hi => nomatch hi) .nil
  | ok history =>
    obtain ⟨w, hextract⟩ := extract_of_replay i h
    exact Store.intervalsOf_replaceIntervals _ (Extractor.owner_of_extract hextract)
      (Extractor.wellFormed_extract hextract).sorted

theorem stored_importInto (hstore : i.store = .standard) {workdir head : String}
    (h : (i.checkout repo.id workdir s.workspace).result = .ok head) :
    ∃ summary, (i.importInto repo workdir s).result = .ok summary ∧
      Stored i repo workdir head s summary (i.importInto repo workdir s).state.store := by
  obtain ⟨hresult, hstate⟩ := importInto_of_checkout hstore h
  refine ⟨_, hresult, ?_⟩
  rw [hstate]
  have hintervals := intervalsOf_saved i repo workdir head s
    ((i.passed repo.id workdir head s).result.toOption.getD [])
  constructor
  case references =>
    intro references hpassed
    rw [referencesFrom_saved, hpassed]
    rfl
  case no_references =>
    intro f hpassed
    rw [referencesFrom_saved, hpassed]
    exact Store.referencesFrom_replaceReferences_nil s.store repo.id.fullName
  case intervals =>
    intro history hreplayed
    rw [hintervals, hreplayed]
    rfl
  case no_intervals =>
    intro f hreplayed
    rw [hintervals, hreplayed]
    rfl
  case count_references => rfl
  case count_intervals => rw [hintervals]

theorem Stored.mark {workdir head : String} {summary : ImportSummary} {t : Store}
    (h : Stored i repo workdir head s summary t) :
    Stored i repo workdir head s summary (t.markImported repo.id.fullName) := by
  have hreferences := Store.referencesFrom_markImported t repo.id.fullName repo.id.fullName
  have hintervals := Store.intervalsOf_markImported t repo.id.fullName repo.id.fullName
  constructor
  case references => exact fun _ hp => hreferences.trans (h.references _ hp)
  case no_references => exact fun _ hp => hreferences.trans (h.no_references _ hp)
  case intervals => exact fun _ hr => hintervals.trans (h.intervals _ hr)
  case no_intervals => exact fun _ hr => hintervals.trans (h.no_intervals _ hr)
  case count_references => rw [hreferences]; exact h.count_references
  case count_intervals => rw [hintervals]; exact h.count_intervals

theorem run_of_slotless (hstore : i.store = .standard)
    (h : Path.absolute? s.cwd (i.slot repo.id) = none) :
    (i.run repo s).result = .error (.io .emptyPath) ∧
      (i.run repo s).state.store = s.store.markImported repo.id.fullName := by
  obtain ⟨hresult, hkept⟩ := importOne_of_slotless h
  rw [result_run, store_run hstore, hresult, hkept]
  exact ⟨rfl, rfl⟩

theorem run_of_failed_checkout (hstore : i.store = .standard) {workdir : String} {f : Fault}
    (h : Path.absolute? s.cwd (i.slot repo.id) = some workdir)
    (hcheckout : (i.checkout repo.id workdir s.workspace).result = .error f) :
    (i.run repo s).result = .error f ∧
      (i.run repo s).state.store = s.store.markImported repo.id.fullName := by
  obtain ⟨hone, hsame⟩ := importOne_of_slot h
  obtain ⟨hinto, hkept⟩ :=
    importInto_of_failed_checkout (s := (forget workdir s).state) hcheckout
  rw [result_run, store_run hstore, hone, hsame, store_cleanUp, hinto, hkept]
  exact ⟨rfl, rfl⟩

theorem run_of_checkout (hstore : i.store = .standard) {workdir head : String}
    (h : Path.absolute? s.cwd (i.slot repo.id) = some workdir)
    (hcheckout : (i.checkout repo.id workdir s.workspace).result = .ok head) :
    ∃ summary, (i.run repo s).result = .ok summary ∧
      Stored i repo workdir head (forget workdir s).state summary (i.run repo s).state.store := by
  obtain ⟨hone, hsame⟩ := importOne_of_slot h
  obtain ⟨summary, hinto, hstored⟩ :=
    stored_importInto (s := (forget workdir s).state) hstore hcheckout
  rw [result_run, store_run hstore, hone, hsame, store_cleanUp, hinto]
  exact ⟨summary, rfl, hstored.mark⟩

/-- An import fails if and only if it has no slot or cannot check the repository out. It has then
changed no finding of any repository; otherwise the store holds what both passes ended with. -/
theorem run_isolated (hstore : i.store = .standard) (repo : Repository) (s : Session) :
    ((∃ f, (i.run repo s).result = .error f) ↔
      (i.config.paths.repos = "" ∧ repo.owner = "" ∧ repo.name = "") ∨
      ∃ workdir f, Path.absolute? s.cwd (i.slot repo.id) = some workdir ∧
        (i.checkout repo.id workdir s.workspace).result = .error f) ∧
    (∀ f, (i.run repo s).result = .error f → ∀ other,
      (i.run repo s).state.store.referencesFrom other = s.store.referencesFrom other ∧
        (i.run repo s).state.store.intervalsOf other = s.store.intervalsOf other) ∧
    ∀ summary, (i.run repo s).result = .ok summary → ∃ workdir head,
      Path.absolute? s.cwd (i.slot repo.id) = some workdir ∧
        (i.checkout repo.id workdir s.workspace).result = .ok head ∧
        Stored i repo workdir head (forget workdir s).state summary (i.run repo s).state.store := by
  cases habsolute : Path.absolute? s.cwd (i.slot repo.id) with
  | none =>
    obtain ⟨hresult, hkept⟩ := run_of_slotless hstore habsolute
    have hempty := slot_eq_empty.mp (Path.absolute?_eq_none.mp habsolute)
    rw [hresult, hkept]
    refine ⟨iff_of_true ⟨_, rfl⟩ (.inl hempty), fun _ _ other => ?_, fun summary h => nomatch h⟩
    exact ⟨Store.referencesFrom_markImported _ _ other, Store.intervalsOf_markImported _ _ other⟩
  | some workdir =>
    cases hcheckout : (i.checkout repo.id workdir s.workspace).result with
    | error f =>
      obtain ⟨hresult, hkept⟩ := run_of_failed_checkout hstore habsolute hcheckout
      rw [hresult, hkept]
      refine ⟨iff_of_true ⟨f, rfl⟩ (.inr ⟨workdir, f, rfl, hcheckout⟩), fun _ _ other => ?_,
        fun summary h => nomatch h⟩
      exact ⟨Store.referencesFrom_markImported _ _ other, Store.intervalsOf_markImported _ _ other⟩
    | ok head =>
      obtain ⟨summary, hresult, hstored⟩ := run_of_checkout hstore habsolute hcheckout
      rw [hresult]
      refine ⟨iff_of_false (fun ⟨_, h⟩ => nomatch h) ?_, fun _ h => (nomatch h), ?_⟩
      · rintro (hempty | ⟨_, f, ⟨⟩, hfailed⟩)
        · rw [slot_eq_empty.mpr hempty, Path.absolute?_eq_none.mpr rfl] at habsolute
          cases habsolute
        · rw [hcheckout] at hfailed
          cases hfailed
      · rintro _ ⟨⟩
        exact ⟨workdir, head, rfl, hcheckout, hstored⟩

/-- Git with nothing to say, no compiler, and repositories right below the working directory. -/
def quiet : Importer where
  git.respond _ t _ := (⟨0, "", ""⟩, t)
  pass := ⟨{ Config.default with paths := { PathSettings.default with repos := "" } },
    ⟨fun _ t => (.refused .notFound, t)⟩, ⟨fun _ _ => Task.fail .json, fun _ => return ()⟩⟩
  resolver := ⟨⟨.empty⟩, .highest⟩
  store := .standard

/-- A session in which a repository was cloned before. -/
def cloned : Session where
  workspace := ⟨⟨[(["w"], .directory), (["w", "a"], .directory), (["w", "a", "b"], .directory),
    (["w", "a", "b", ".git"], .directory)], "/w"⟩, []⟩
  modules := .empty
  store := .empty

/-- A value of a module of the same repository. -/
def ownUse : ExternalUse := ⟨"helper", ⟨"a", "b"⟩, "U", ⟨⟨3, 1⟩, ⟨3, 7⟩⟩, "M.elm"⟩

/-- Git tells of one commit, and the compiler of one use in the file that it is asked about. -/
def surveying : Importer := { quiet with
  git.respond _ t call :=
    match call.args with
    | ["rev-parse", "--abbrev-ref", "HEAD"] => (⟨0, "main\n", ""⟩, t)
    | ["rev-parse", "HEAD"] => (⟨0, "a0\n", ""⟩, t)
    | "log" :: _ => (⟨0, "a0 100\n", ""⟩, t)
    | _ => (⟨0, "", ""⟩, t)
  pass := { quiet.pass with
    compiler := ⟨fun _ file => return ⟨[ownUse], [file]⟩, fun _ => return ()⟩ } }

/-- A clone with a dependency and two modules. -/
def furnished : Session := { cloned with
  workspace := ⟨⟨cloned.workspace.tree.entries ++
    [(["w", "a", "b", "M.elm"], .file (.text "module M")),
      (["w", "a", "b", "U.elm"], .file (.text "module U")),
      (["w", "a", "b", "elm-package.json"],
        .file (.text "\x7b\"dependencies\": \x7b\"c/d\": \"1.0.0\"\x7d\x7d"))], "/w"⟩, []⟩ }

/-- Both halves are stored: the reference between the two files, and the interval of the dependency. -/
theorem run_isolated_furnished : ∃ workdir head,
    let o := surveying.run ⟨"a", "b", none, none, none⟩ furnished
    Stored surveying ⟨"a", "b", none, none, none⟩ workdir head (forget workdir furnished).state
      ⟨1, 1, false⟩ o.state.store ∧
    (o.state.store.referencesFrom "a/b").map
        (fun r => (r.symbol, r.url, r.referer.file, r.referred.file)) =
      [("helper", "https://github.com/a/b/blob/a0/M.elm#L3", "M.elm", "U.elm")] ∧
    o.state.store.intervalsOf "a/b" = [⟨"a/b", "c/d", "1.0.0", "1.0.0", 100000, none⟩] := by
  have hrun : ∃ o, surveying.run ⟨"a", "b", none, none, none⟩ furnished = o ∧
      o.result = .ok ⟨1, 1, false⟩ ∧
      (o.state.store.referencesFrom "a/b").map
          (fun r => (r.symbol, r.url, r.referer.file, r.referred.file)) =
        [("helper", "https://github.com/a/b/blob/a0/M.elm#L3", "M.elm", "U.elm")] ∧
      o.state.store.intervalsOf "a/b" = [⟨"a/b", "c/d", "1.0.0", "1.0.0", 100000, none⟩] :=
    ⟨_, rfl, by decide +kernel⟩
  obtain ⟨_, rfl, hresult, hfindings⟩ := hrun
  obtain ⟨workdir, head, -, -, hstored⟩ :=
    (@run_isolated surveying rfl ⟨"a", "b", none, none, none⟩ furnished).2.2 _ hresult
  exact ⟨workdir, head, hstored, hfindings⟩

/-- Without a slot an import fails before anything is cloned. -/
theorem run_without_slot :
    (quiet.run ⟨"", "", none, none, none⟩ cloned).result = .error (.io .emptyPath) ∧
      ¬∃ workdir f, Path.absolute? cloned.cwd (quiet.slot ⟨"", ""⟩) = some workdir ∧
        (quiet.checkout ⟨"", ""⟩ workdir cloned.workspace).result = .error f := by
  refine ⟨by decide +kernel, ?_⟩
  rintro ⟨workdir, f, habsolute, -⟩
  cases habsolute

end Importer
end UsageGraph
