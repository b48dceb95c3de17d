import UsageGraph.Proofs.Module.Resolution
import UsageGraph.Proofs.Version.Order
import UsageGraph.Proofs.Version.Range

/-! # Why a checkout is not accepted

* `Manifest.Unread`, `Manifest.read_eq_error`: why there is no manifest to be had.
* `Manifest.Rejects`, `Manifest.checkLanguage_eq_error`: why a manifest does not allow a version of
  the language.
* `Undetermined`, `exactDependencies_eq_error`: why it is not known what has been installed.
-/

namespace UsageGraph
open Text
set_option autoImplicit false

namespace Manifest
variable {t : FileTree} {root path content : String} {f : Fault}

/-! ## Manifests -/

/-- The path is that of the first manifest name under which there is a file. -/
def At (t : FileTree) (root path : String) : Prop :=
  ∃ before name after, manifestNames = before ++ name :: after ∧ path = Path.join root name ∧
    t.isFile path = true ∧ ∀ other ∈ before, t.isFile (Path.join root other) = false

inductive Unread (t : FileTree) (root : String) : Fault → Prop
  | missing : (∀ name ∈ manifestNames, t.isFile (Path.join root name) = false) →
      Unread t root (.manifestMissing ("no elm-package.json or elm.json in " ++ root))
  | unreadable {path : String} {cause : IoCause} :
      At t root path → t.readText path = .error cause → Unread t root (.io cause)
  | invalid {path content : String} : At t root path → t.readText path = .ok content →
      (∀ m, parse content path ≠ .ok m) → Unread t root (.manifestInvalid (.malformed path))

theorem find?_eq_none : find? t root = none ↔
    ∀ name ∈ manifestNames, t.isFile (Path.join root name) = false := by
  simp [find?_eq]

theorem find?_eq_some : find? t root = some path ↔ At t root path := by
  rw [find?_eq, Option.map_eq_some_iff]
  constructor
  · rintro ⟨name, hname, rfl⟩
    obtain ⟨hfile, before, after, hsplit, hbefore⟩ := List.find?_eq_some_iff_append.mp hname
    refine ⟨before, name, after, hsplit, rfl, hfile, fun other hother => ?_⟩
    simpa using hbefore other hother
  · rintro ⟨before, name, after, hsplit, rfl, hfile, hbefore⟩
    refine ⟨name, List.find?_eq_some_iff_append.mpr ⟨hfile, before, after, hsplit, ?_⟩, rfl⟩
    intro other hother
    simp [hbefore other hother]

theorem parse_eq_error : parse content path = .error f ↔
    (∀ m, parse content path ≠ .ok m) ∧ f = .manifestInvalid (.malformed path) := by
  rw [parse]
  split
  · simp
  · simp [eq_comm]

theorem read_eq_error : read t root = .error f ↔ Unread t root f := by
  constructor
  · intro h
    unfold Manifest.read at h
    cases hfind : find? t root with
    | none =>
      simp only [hfind] at h
      cases h
      exact .missing (find?_eq_none.mp hfind)
    | some path =>
      have hat := find?_eq_some.mp hfind
      simp only [hfind] at h
      cases hread : t.readText path with
      | error cause =>
        rw [hread] at h
        cases h
        exact .unreadable hat hread
      | ok content =>
        rw [hread] at h
        obtain ⟨hinvalid, rfl⟩ := parse_eq_error.mp h
        exact .invalid hat hread hinvalid
  · intro h
    unfold Manifest.read
    cases h with
    | missing hnone => simp [find?_eq_none.mpr hnone, manifestNames, join]
    | unreadable hat hread => simp [find?_eq_some.mpr hat, hread, ofIo, bind, Except.bind]
    | invalid hat hread hinvalid =>
      have hparse := parse_eq_error.mpr ⟨hinvalid, rfl⟩
      simp [find?_eq_some.mpr hat, hread, ofIo, bind, Except.bind, hparse]

/-! ## The language -/

/-- A range has to hold the version. Anything else that is declared has to be that version. -/
inductive Rejects (m : Manifest) (current : Version) : Fault → Prop
  | unreadable {required : String} : m.elmVersion = some required →
      ¬VersionRange.InGrammar (trim required) → (∀ v, ¬Version.WrittenAs v (trim required)) →
      Rejects m current (.manifestInvalid (.unreadableLanguage required))
  | outside {required : String} {range : VersionRange} : m.elmVersion = some required →
      range.WrittenAs required → ¬range.Holds current →
      Rejects m current (.manifestInvalid (.languageMismatch current.render required))
  | other {required : String} {exact : Version} : m.elmVersion = some required →
      ¬VersionRange.InGrammar (trim required) → exact.WrittenAs (trim required) →
      exact ≠ current →
      Rejects m current (.manifestInvalid (.languageMismatch current.render required))

section
variable {m : Manifest} {current : Version} {required : String}

theorem admits?_of_range {range : VersionRange} (h : range.WrittenAs required) :
    admits? required current = some (range.contains current) := by
  rw [admits?, VersionRange.parse?_eq_some.mpr h]

theorem admits?_of_not_inGrammar (h : ¬VersionRange.InGrammar (trim required)) :
    admits? required current =
      (Version.parse? (trim required)).map fun exact => decide (exact = current) := by
  rw [admits?, VersionRange.parse?_eq_none.mpr h]

theorem admits?_eq_none : admits? required current = none ↔
    ¬VersionRange.InGrammar (trim required) ∧ ∀ v, ¬Version.WrittenAs v (trim required) := by
  by_cases hgrammar : VersionRange.InGrammar (trim required)
  · obtain ⟨range, hrange⟩ := VersionRange.inGrammar_trim_iff.mp hgrammar
    simp [admits?_of_range hrange, hgrammar]
  · rw [admits?_of_not_inGrammar hgrammar, Option.map_eq_none_iff, Version.parse?_eq_none]
    simp [hgrammar]

theorem admits?_eq_false : admits? required current = some false ↔
    (∃ range : VersionRange, range.WrittenAs required ∧ ¬range.Holds current) ∨
      ¬VersionRange.InGrammar (trim required) ∧
        ∃ exact : Version, exact.WrittenAs (trim required) ∧ exact ≠ current := by
  by_cases hgrammar : VersionRange.InGrammar (trim required)
  · obtain ⟨range, hrange⟩ := VersionRange.inGrammar_trim_iff.mp hgrammar
    rw [admits?_of_range hrange, Option.some_inj, ← Bool.not_eq_true, VersionRange.contains_iff]
    constructor
    · intro houtside
      exact .inl ⟨range, hrange, houtside⟩
    · rintro (⟨range', hrange', houtside⟩ | ⟨hnot, -⟩)
      · rwa [hrange.unique hrange']
      · exact absurd hgrammar hnot
  · rw [admits?_of_not_inGrammar hgrammar, Option.map_eq_some_iff]
    constructor
    · rintro ⟨exact, hexact, hne⟩
      exact .inr ⟨hgrammar, exact, Version.parse?_eq_some.mp hexact, of_decide_eq_false hne⟩
    · rintro (⟨range, hrange, -⟩ | ⟨-, exact, hexact, hne⟩)
      · exact absurd (VersionRange.inGrammar_trim_iff.mpr ⟨range, hrange⟩) hgrammar
      · exact ⟨exact, Version.parse?_eq_some.mpr hexact, decide_eq_false hne⟩

theorem checkLanguage_eq_error : m.checkLanguage current = .error f ↔ m.Rejects current f := by
  rw [checkLanguage]
  constructor
  · intro h
    split at h
    · cases h
    · next required hrequired =>
      split at h
      · next hadmits =>
        cases h
        obtain ⟨hgrammar, hversion⟩ := admits?_eq_none.mp hadmits
        exact .unreadable hrequired hgrammar hversion
      · cases h
      · next hadmits =>
        cases h
        rcases admits?_eq_false.mp hadmits with ⟨range, hrange, hout⟩ | ⟨hgrammar, v, hv, hne⟩
        · exact .outside hrequired hrange hout
        · exact .other hrequired hgrammar hv hne
  · intro h
    cases h with
    | unreadable hrequired hgrammar hversion =>
      simp [hrequired, admits?_eq_none.mpr ⟨hgrammar, hversion⟩]
    | outside hrequired hrange hout =>
      simp [hrequired, admits?_eq_false.mpr (.inl ⟨_, hrange, hout⟩)]
    | other hrequired hgrammar hv hne =>
      simp [hrequired, admits?_eq_false.mpr (.inr ⟨hgrammar, _, hv, hne⟩)]

end

end Manifest

/-! ## What has been installed -/

inductive Undetermined (t : FileTree) (workdir : String) : Fault → Prop
  | unreadable {cause : IoCause} : t.readText (exactDependenciesPath workdir) = .error cause →
      cause ≠ .notFound → Undetermined t workdir (.io cause)
  | invalid {content : String} : t.readText (exactDependenciesPath workdir) = .ok content →
      (∀ d, Document.parse? content = some d → d.textTable? = none) →
      Undetermined t workdir (.manifestInvalid (.malformed (exactDependenciesPath workdir)))

section
variable {t : FileTree} {workdir : String}

theorem exactDependencies_of_unread {cause : IoCause}
    (h : t.readText (exactDependenciesPath workdir) = .error cause) :
    exactDependencies t workdir = if cause = .notFound then .ok .empty else .error (.io cause) := by
  unfold exactDependencies
  simp only [h]
  cases cause <;> rfl

theorem exactDependencies_of_read {content : String}
    (h : t.readText (exactDependenciesPath workdir) = .ok content) :
    exactDependencies t workdir =
      ((Document.parse? content).bind Document.textTable?).elim
        (.error (.manifestInvalid (.malformed (exactDependenciesPath workdir)))) .ok := by
  unfold exactDependencies
  simp only [h]
  cases (Document.parse? content).bind Document.textTable? <;> rfl

theorem exactDependencies_eq_error {f : Fault} :
    exactDependencies t workdir = .error f ↔ Undetermined t workdir f := by
  constructor
  · intro h
    cases hread : t.readText (exactDependenciesPath workdir) with
    | error cause =>
      rw [exactDependencies_of_unread hread] at h
      by_cases hcause : cause = .notFound
      · rw [if_pos hcause] at h
        cases h
      · rw [if_neg hcause] at h
        cases h
        exact .unreadable hread hcause
    | ok content =>
      rw [exactDependencies_of_read hread] at h
      cases htable : (Document.parse? content).bind Document.textTable? with
      | some versions =>
        rw [htable] at h
        cases h
      | none =>
        rw [htable] at h
        cases h
        exact .invalid hread (Option.bind_eq_none_iff.mp htable)
  · intro h
    cases h with
    | unreadable hread hcause => rw [exactDependencies_of_unread hread, if_neg hcause]
    | invalid hread hnone =>
      rw [exactDependencies_of_read hread, Option.bind_eq_none_iff.mpr hnone]
      rfl

theorem exactDependencies_eq_ok : (∃ versions, exactDependencies t workdir = .ok versions) ↔
    ∀ f, ¬Undetermined t workdir f := by
  simp only [← exactDependencies_eq_error]
  cases exactDependencies t workdir <;> simp

end
end UsageGraph
