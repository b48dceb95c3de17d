import UsageGraph.Proofs.Store.RoundTrip
import UsageGraph.Proofs.Text.ByteOrder
import Mathlib.Data.List.Dedup

/-! # References to a repository

The references to a repository are picked out by a file that is joined to their rows, and those of a
repository by the name under which they were stored.

* `Store.referrers`: the repositories that have references.
* `Reference.PrecedesByBytes`: by referring repository, file, line, column and locator.
* `Store.perm_referencesTo`: the references to a repository are those of all repositories together.
* `Store.QueriesAgree`, `Store.queriesAgree_run`: how the two queries fit together after a session.
-/

namespace UsageGraph
set_option autoImplicit false

/-! ## Order -/

/-- By referring repository, file, line, column and locator, texts by their bytes. -/
def Reference.PrecedesByBytes (a b : Reference) : Prop :=
  Text.encode a.referer.repo < Text.encode b.referer.repo ∨ a.referer.repo = b.referer.repo ∧
    (Text.encode a.referer.file < Text.encode b.referer.file ∨ a.referer.file = b.referer.file ∧
      (a.region.start.line < b.region.start.line ∨ a.region.start.line = b.region.start.line ∧
        (a.region.start.column < b.region.start.column ∨
          a.region.start.column = b.region.start.column ∧ Text.encode a.id < Text.encode b.id)))

theorem Reference.precedesByBytes_iff {a b : Reference} : a.PrecedesByBytes b ↔
    a.referer.repo < b.referer.repo ∨ a.referer.repo = b.referer.repo ∧ a.Precedes b := by
  simp only [PrecedesByBytes, Precedes, Text.encode_lt_iff]

namespace Store
open Reference

theorem compareReferers_eq : compareReferers =
    compareLex (compareOn fun r => r.referer.repo) comparePlaces := by
  funext a b
  simp [compareReferers, lexicographic, compareLex, compareOn]

instance : Std.TransCmp compareReferers := compareReferers_eq ▸ inferInstance

theorem compareReferers_eq_lt {a b : Reference} :
    compareReferers a b = .lt ↔ a.PrecedesByBytes b := by
  have hrepo : compare a.referer.repo b.referer.repo = .lt ↔ a.referer.repo < b.referer.repo :=
    compareOfLessAndEq_eq_lt
  rw [precedesByBytes_iff, ← comparePlaces_eq_lt, compareReferers_eq, compareLex, compareOn,
    Ordering.then_eq_lt, hrepo, Std.compare_eq_iff_eq]

theorem id_eq_of_compareReferers {a b : Reference} (h : compareReferers a b = .eq) :
    a.id = b.id := by
  rw [compareReferers_eq, compareLex, Ordering.then_eq_eq] at h
  exact id_eq_of_comparePlaces h.2

section
variable (s : Store) (repo : String) (version : Option String)

theorem nodup_ids_referencesTo : ((s.referencesTo repo version).map Reference.id).Nodup :=
  ((List.mergeSort_perm _ _).map Reference.id).nodup_iff.mpr
    ((nodup_ids_reference? s).sublist (List.filter_sublist.map _))

theorem nodup_referencesTo : (s.referencesTo repo version).Nodup :=
  List.Nodup.of_map _ (nodup_ids_referencesTo s repo version)

theorem sorted_referencesTo : (s.referencesTo repo version).Pairwise PrecedesByBytes :=
  (@pairwise_mergeSort_lt _ _ compareReferers _ Reference.id id_eq_of_compareReferers _
    ((nodup_ids_reference? s).sublist (List.filter_sublist.map _))).imp compareReferers_eq_lt.mp

end

/-! ## Versions -/

theorem mem_referencesTo {s : Store} {repo : String} {version : Option String} {x : Reference} :
    x ∈ s.referencesTo repo version ↔ (x.referred.repo = repo ∧
      (version = none ∨ x.version = version)) ∧ ∃ r, x ∈ s.referencesFrom r := by
  rw [referencesTo, List.mem_mergeSort, List.mem_filter, List.mem_filterMap]
  constructor
  · rintro ⟨⟨p, hp, hx⟩, hto⟩
    exact ⟨of_decide_eq_true hto, p.2.repo, mem_referencesFrom_of_mem hp hx⟩
  · rintro ⟨hto, r, hx⟩
    obtain ⟨row, hrow, -, hx⟩ := mem_referencesFrom.mp hx
    exact ⟨⟨_, Table.mem_entries.mpr hrow, hx⟩, decide_eq_true hto⟩

theorem not_precedesByBytes {a b : Reference} (h : a.PrecedesByBytes b) : ¬b.PrecedesByBytes a := by
  intro h'
  have hgt := Std.OrientedCmp.gt_of_lt (compareReferers_eq_lt.mpr h)
  rw [compareReferers_eq_lt.mpr h'] at hgt
  cases hgt

/-- The references to a version are those to the repository that have this version, in their order. -/
theorem referencesTo_some (s : Store) (repo version : String) :
    s.referencesTo repo (some version) =
      (s.referencesTo repo none).filter fun x => x.version = some version := by
  have hperm : (s.referencesTo repo (some version)).Perm
      ((s.referencesTo repo none).filter fun x => x.version = some version) := by
    refine (List.perm_ext_iff_of_nodup (nodup_referencesTo s repo _)
      ((nodup_referencesTo s repo none).filter _)).mpr fun x => ?_
    rw [List.mem_filter, mem_referencesTo, mem_referencesTo, decide_eq_true_iff]
    constructor
    · rintro ⟨⟨hrepo, hversion⟩, hfrom⟩
      exact ⟨⟨⟨hrepo, .inl rfl⟩, hfrom⟩, hversion.resolve_left nofun⟩
    · rintro ⟨⟨⟨hrepo, -⟩, hfrom⟩, hversion⟩
      exact ⟨⟨hrepo, .inr hversion⟩, hfrom⟩
  exact hperm.eq_of_pairwise (fun a b _ _ hab hba => (not_precedesByBytes hab hba).elim)
    (sorted_referencesTo s repo _) ((sorted_referencesTo s repo none).filter _)

/-! ## Referrers -/

/-- The repositories under which references are stored. -/
def referrers (s : Store) : List String := (s.references.map fun p => p.2.repo).dedup

theorem mem_referrers {s : Store} {repo : String} (h : s.Linked repo) :
    repo ∈ s.referrers ↔ s.referencesFrom repo ≠ [] := by
  rw [referrers, List.mem_dedup, Table.map, List.mem_map]
  constructor
  · rintro ⟨p, hp, rfl⟩
    obtain ⟨x, hx⟩ := Option.isSome_iff_exists.mp (h p hp rfl)
    exact List.ne_nil_of_mem (mem_referencesFrom_of_mem hp hx)
  · intro hne
    obtain ⟨x, hx⟩ := List.exists_mem_of_ne_nil _ hne
    obtain ⟨row, hrow, hrepo, -⟩ := mem_referencesFrom.mp hx
    exact ⟨(x.id, row), Table.mem_entries.mpr hrow, hrepo⟩

theorem repo_unique {s : Store} {r r' : String} {x : Reference} (h : x ∈ s.referencesFrom r)
    (h' : x ∈ s.referencesFrom r') : r = r' := by
  obtain ⟨row, hrow, hrepo, -⟩ := mem_referencesFrom.mp h
  obtain ⟨row', hrow', hrepo', -⟩ := mem_referencesFrom.mp h'
  rw [hrow] at hrow'
  cases hrow'
  rw [← hrepo, hrepo']

theorem perm_referencesTo {s : Store} (h : ∀ r, s.Linked r) (repo : String) :
    (s.referencesTo repo none).Perm
      (s.referrers.flatMap fun r => (s.referencesFrom r).filter fun x => x.referred.repo = repo) := by
  refine (List.perm_ext_iff_of_nodup (nodup_referencesTo s repo none) ?_).mpr fun x => ?_
  · refine List.nodup_flatMap.mpr ⟨fun r _ => ?_, ?_⟩
    · exact (List.Nodup.of_map _ (nodup_ids_referencesFrom s r)).filter _
    · refine (List.nodup_dedup _).imp fun {r r'} hne x hx hx' => hne ?_
      exact repo_unique (List.mem_filter.mp hx).1 (List.mem_filter.mp hx').1
  · rw [mem_referencesTo, List.mem_flatMap]
    constructor
    · rintro ⟨⟨hrepo, -⟩, r, hx⟩
      exact ⟨r, (mem_referrers (h r)).mpr (List.ne_nil_of_mem hx),
        List.mem_filter.mpr ⟨hx, decide_eq_true hrepo⟩⟩
    · rintro ⟨r, -, hx⟩
      obtain ⟨hx, hrepo⟩ := List.mem_filter.mp hx
      exact ⟨⟨of_decide_eq_true hrepo, .inl rfl⟩, r, hx⟩

/-! ## Both queries -/

/-- References to a repository and references of a repository are the same references. -/
structure QueriesAgree (s : Store) : Prop where
  /-- Each repository that has references is named once. -/
  referrers : s.referrers.Nodup ∧ ∀ r, r ∈ s.referrers ↔ s.referencesFrom r ≠ []
  perm : ∀ repo, (s.referencesTo repo none).Perm
    (s.referrers.flatMap fun r => (s.referencesFrom r).filter fun x => x.referred.repo = repo)
  version : ∀ repo version, s.referencesTo repo (some version) =
    (s.referencesTo repo none).filter fun x => x.version = some version
  ids : ∀ repo version, ((s.referencesTo repo version).map Reference.id).Nodup
  sorted : ∀ repo version, (s.referencesTo repo version).Pairwise PrecedesByBytes

/-- After every session all rows have their files and symbols, so that neither query loses one. -/
theorem queriesAgree_run (ops : List Operation) : (run ops).QueriesAgree where
  referrers := ⟨List.nodup_dedup _, fun r => mem_referrers (linked_run ops r)⟩
  perm := perm_referencesTo (linked_run ops)
  version := referencesTo_some _
  ids := nodup_ids_referencesTo _
  sorted := sorted_referencesTo _

example : (run earlierSession).referrers = ["me/app"] ∧
    (run earlierSession).referencesFrom "me/app" = [helperReference "me/app" "1" 3 (some "Util")] ∧
    (run earlierSession).referencesTo "lib/util" none = (run earlierSession).referencesFrom "me/app" ∧
    (run earlierSession).referencesTo "lib/util" (some "1.0.0") =
      (run earlierSession).referencesFrom "me/app" ∧
    (run earlierSession).referencesTo "lib/util" (some "2.0.0") = [] := by
  decide +kernel

end Store
end UsageGraph
