import UsageGraph.Proofs.Lists
import UsageGraph.Proofs.Store.Ledger

/-! # References come back as they were stored

* `Reference.latest`, `Reference.recalled`: the last reference with a locator, with the modules that
  were last given for its files.
* `Reference.Precedes`: by file, line, column and locator.
* `Store.sorted_referencesFrom`: the references of a repository are in this order.
* `Store.replaceReferences_round_trip`: after references were stored, those that come back are the
  last ones with their locators, and to store them again changes nothing.
-/

namespace UsageGraph
set_option autoImplicit false

/-! ## What is to come back -/

namespace Reference

/-- The last of some references with a locator. -/
def latest (rs : List Reference) (id : String) : Option Reference :=
  (rs.filter fun r => r.id = id).getLast?

theorem latest_concat (rs : List Reference) (r : Reference) (id : String) :
    latest (rs ++ [r]) id = if r.id = id then some r else latest rs id := by
  rw [latest, List.filter_append]
  by_cases h : r.id = id <;> simp [h, latest]

theorem latest_eq_some {rs : List Reference} {id : String} {r : Reference}
    (h : latest rs id = some r) : r ∈ rs ∧ r.id = id := by
  obtain ⟨hmem, hid⟩ := List.mem_filter.mp (List.mem_of_getLast? h)
  exact ⟨hmem, of_decide_eq_true hid⟩

/-- A reference with the modules that were last given for its files. -/
def recalled (gs : List FileRef) (r : Reference) : Reference :=
  { r with
    referer.module := FileRef.lastModule gs r.referer.repo r.referer.file
    referred.module := FileRef.lastModule gs r.referred.repo r.referred.file }

/-- By referring file, line, column and locator. -/
def Precedes (a b : Reference) : Prop :=
  a.referer.file < b.referer.file ∨ a.referer.file = b.referer.file ∧
    (a.region.start.line < b.region.start.line ∨ a.region.start.line = b.region.start.line ∧
      (a.region.start.column < b.region.start.column ∨
        a.region.start.column = b.region.start.column ∧ a.id < b.id))

end Reference

namespace Store
open Reference

/-! ## Order -/

theorem comparePlaces_eq : comparePlaces =
    compareLex (compareOn fun r => r.referer.file) (compareLex (compareOn fun r => r.region.start.line)
      (compareLex (compareOn fun r => r.region.start.column) (compareOn Reference.id))) := by
  funext a b
  simp [comparePlaces, lexicographic, compareLex, compareOn]

instance : Std.TransCmp comparePlaces := comparePlaces_eq ▸ inferInstance

theorem comparePlaces_eq_lt {a b : Reference} : comparePlaces a b = .lt ↔ a.Precedes b := by
  have hstring : ∀ s t : String, Ord.compare s t = .lt ↔ s < t := fun s t =>
    compareOfLessAndEq_eq_lt
  simp [comparePlaces, lexicographic, Ordering.then_eq_lt, Precedes, hstring, Nat.compare_eq_lt]

theorem id_eq_of_comparePlaces {a b : Reference} (h : comparePlaces a b = .eq) : a.id = b.id := by
  simp [comparePlaces, lexicographic, Ordering.then_eq_eq] at h
  exact h.2.2.2

section
variable (s : Store) (repo : String)

theorem id_of_reference? {s : Store} {p : String × ReferenceRow} {x : Reference}
    (h : s.reference? p = some x) : x.id = p.1 := by
  simp only [reference?, Option.bind_eq_bind, Option.bind_eq_some_iff] at h
  obtain ⟨_, -, _, -, _, -, h⟩ := h
  cases h
  rfl

/-- No two rows have the same locator. -/
theorem nodup_ids_reference? :
    ((s.references.entries.filterMap s.reference?).map Reference.id).Nodup := by
  refine List.pairwise_map.mpr (s.references.sorted.filterMap _ fun p q hpq a ha b hb he => ?_)
  rw [id_of_reference? ha, id_of_reference? hb] at he
  exact String.lt_irrefl _ (he ▸ hpq)

theorem nodup_ids_filter : (((s.references.entries.filter fun p => p.2.repo = repo).filterMap
    s.reference?).map Reference.id).Nodup :=
  (nodup_ids_reference? s).sublist ((List.filter_sublist.filterMap _).map _)

theorem nodup_ids_referencesFrom : ((s.referencesFrom repo).map Reference.id).Nodup :=
  ((List.mergeSort_perm _ _).map Reference.id).nodup_iff.mpr (nodup_ids_filter s repo)

theorem sorted_referencesFrom : (s.referencesFrom repo).Pairwise Reference.Precedes :=
  (@pairwise_mergeSort_lt _ _ comparePlaces _ Reference.id id_eq_of_comparePlaces _
    (nodup_ids_filter s repo)).imp comparePlaces_eq_lt.mp

theorem mem_referencesFrom_of_mem {s : Store} {p : String × ReferenceRow} {x : Reference}
    (hp : p ∈ s.references.entries) (hx : s.reference? p = some x) :
    x ∈ s.referencesFrom p.2.repo := by
  rw [referencesFrom, List.mem_mergeSort]
  exact List.mem_filterMap.mpr ⟨p, List.mem_filter.mpr ⟨hp, decide_eq_true rfl⟩, hx⟩

theorem mem_referencesFrom {s : Store} {repo : String} {x : Reference} :
    x ∈ s.referencesFrom repo ↔
      ∃ row, s.references.get? x.id = some row ∧ row.repo = repo ∧ s.reference? (x.id, row) = some x := by
  rw [referencesFrom, List.mem_mergeSort, List.mem_filterMap]
  constructor
  · rintro ⟨⟨id, row⟩, hp, hx⟩
    obtain ⟨hmem, hrepo⟩ := List.mem_filter.mp hp
    have hid : x.id = id := id_of_reference? hx
    subst hid
    exact ⟨row, Table.mem_entries.mp hmem, of_decide_eq_true hrepo, hx⟩
  · rintro ⟨row, hrow, hrepo, hx⟩
    exact ⟨_, List.mem_filter.mpr ⟨Table.mem_entries.mpr hrow, decide_eq_true hrepo⟩, hx⟩

end

/-! ## Rows -/

section
variable (repo : String) (rs : List Reference) (s : Store)

theorem get?_references_foldl (id : String) :
    (rs.foldl (putReference repo) s).references.get? id =
      ((latest rs id).map (referenceRow repo)).or (s.references.get? id) := by
  induction rs using List.reverseRecOn with
  | nil => rfl
  | append_singleton rs r ih =>
    rw [List.foldl_append, List.foldl_cons, List.foldl_nil, putReference_eq, latest_concat,
      Table.get?_insert, ih]
    by_cases hid : r.id = id
    · rw [if_pos hid.symm, if_pos hid]
      rfl
    · rw [if_neg (Ne.symm hid), if_neg hid]

theorem get?_references_drop (id : String) : (s.dropReferences repo).references.get? id =
    (s.references.get? id).filter fun row => row.repo ≠ repo :=
  Table.get?_filter _ _ _

end

section
variable {s : Store} {rs : List Reference} {repo : String}

/-- What a store gives back for a reference that it was given. -/
theorem Remembers.reference? (h : s.Remembers rs) {r : Reference} (hr : r ∈ rs) (repo : String) :
    s.reference? (r.id, referenceRow repo r) =
      some (r.recalled (rs.flatMap Reference.fileRefs)) := by
  have hreferer := h.files.row r.referer
    (List.mem_flatMap.mpr ⟨r, hr, List.mem_cons_self⟩)
  have hreferred := h.files.row r.referred
    (List.mem_flatMap.mpr ⟨r, hr, List.mem_cons_of_mem _ List.mem_cons_self⟩)
  simp only [Store.reference?, referenceRow, fileRef?, h.symbols.name r hr, hreferer, hreferred]
  rfl

theorem get?_references_replace (s : Store) (repo : String) (rs : List Reference) (id : String) :
    (s.replaceReferences repo rs).2.references.get? id =
      ((latest rs id).map (referenceRow repo)).or
        ((s.references.get? id).filter fun row => row.repo ≠ repo) := by
  rw [← get?_references_drop]
  exact get?_references_foldl repo rs (s.dropReferences repo) id

/-- Of the references that a repository was given, the last ones with their locators are back. -/
theorem mem_referencesFrom_replace {gs : List Reference}
    (h : (s.replaceReferences repo rs).2.Remembers gs) (hsub : rs ⊆ gs) {x : Reference} :
    x ∈ (s.replaceReferences repo rs).2.referencesFrom repo ↔
      ∃ r, latest rs x.id = some r ∧ x = r.recalled (gs.flatMap Reference.fileRefs) := by
  rw [mem_referencesFrom]
  constructor
  · rintro ⟨row, hrow, hrepo, hx⟩
    rw [get?_references_replace] at hrow
    cases hlatest : latest rs x.id with
    | none =>
      -- Whatever was stored under the repository before has been taken out.
      rw [hlatest, Option.map_none, Option.none_or] at hrow
      have hother := (Option.filter_eq_some_iff.mp hrow).2
      exact absurd hrepo (of_decide_eq_true hother)
    | some r =>
      rw [hlatest] at hrow
      cases hrow
      obtain ⟨hr, hid⟩ := latest_eq_some hlatest
      rw [← hid, h.reference? (hsub hr)] at hx
      exact ⟨r, rfl, (Option.some.inj hx).symm⟩
  · rintro ⟨r, hlatest, hx⟩
    obtain ⟨hr, hid⟩ := latest_eq_some hlatest
    refine ⟨referenceRow repo r, ?_, rfl, ?_⟩
    · rw [get?_references_replace, hlatest]
      rfl
    · rw [← hid, h.reference? (hsub hr), hx]

/-! ## Once more -/

theorem eq_of_tables {s t : Store} (hrepositories : s.repositories = t.repositories)
    (hfiles : s.files = t.files) (hsymbols : s.symbols = t.symbols)
    (hreferences : s.references = t.references) (hintervals : s.intervals = t.intervals) :
    s = t := by
  cases s
  cases t
  cases hrepositories
  cases hfiles
  cases hsymbols
  cases hreferences
  cases hintervals
  rfl

/-- To store the same references once more changes nothing. -/
theorem replaceReferences_again {gs : List Reference} (h : s.Remembers gs)
    (hc : Consistent (gs ++ rs)) (repo : String) :
    (s.replaceReferences repo rs).2.replaceReferences repo rs = s.replaceReferences repo rs := by
  have hfirst := h.replaceReferences repo hc
  have hagain : Consistent (gs ++ rs ++ rs) :=
    hc.subset (List.append_subset.mpr ⟨fun _ h => h, List.subset_append_right _ _⟩)
  have hsecond := hfirst.replaceReferences repo hagain
  -- Nothing is given that was not given before, and what was last stays last.
  have hfiles := hsecond.files.eq hfirst.files (fun f => by simp) fun repo file => by
    simp only [List.flatMap_append, FileRef.lastModule_append]
    cases FileRef.lastModule (rs.flatMap fileRefs) repo file <;> rfl
  have hsymbols := hsecond.symbols.eq hfirst.symbols fun r => by simp
  have hreferences : ((s.replaceReferences repo rs).2.replaceReferences repo rs).2.references =
      (s.replaceReferences repo rs).2.references := by
    refine Table.ext_get? fun id => ?_
    rw [get?_references_replace, get?_references_replace]
    cases latest rs id with
    | some r => rfl
    | none =>
      rw [Option.map_none, Option.none_or, Option.none_or, Option.filter_filter]
      simp only [Bool.and_self]
  obtain ⟨hrepositories, hintervals⟩ := rest_replaceReferences (s.replaceReferences repo rs).2 repo rs
  have hstore := eq_of_tables hrepositories hfiles hsymbols hreferences hintervals
  exact Prod.ext (congrArg (countReferences · repo) hstore) hstore

end

/-! ## The round trip -/

/-- After references were stored for a repository, the last ones with their locators come back, each
with the modules that were last given for its files. They come in order, each locator once, and they
are as many as were counted. To store them again changes nothing. -/
theorem replaceReferences_round_trip {ops : List Operation} (repo : String) {rs : List Reference}
    (hc : Consistent (given ops ++ rs)) :
    (∀ x, x ∈ ((run ops).replaceReferences repo rs).2.referencesFrom repo ↔ ∃ r,
      latest rs x.id = some r ∧ x = r.recalled ((given ops ++ rs).flatMap Reference.fileRefs)) ∧
    ((((run ops).replaceReferences repo rs).2.referencesFrom repo).map Reference.id).Nodup ∧
    (((run ops).replaceReferences repo rs).2.referencesFrom repo).Pairwise Reference.Precedes ∧
    ((run ops).replaceReferences repo rs).1 =
      (((run ops).replaceReferences repo rs).2.referencesFrom repo).length ∧
    ((run ops).replaceReferences repo rs).2.replaceReferences repo rs =
      (run ops).replaceReferences repo rs := by
  have hrun := remembers_run (hc.subset (List.subset_append_left _ _))
  refine ⟨fun x => ?_, nodup_ids_referencesFrom _ repo, sorted_referencesFrom _ repo,
    count_replaceReferences _ repo rs, replaceReferences_again hrun hc repo⟩
  exact mem_referencesFrom_replace (hrun.replaceReferences repo hc) (List.subset_append_right _ _)

/-- A use of one helper. Some uses know the module that it is from. -/
def helperReference (repo id : String) (line : Nat) (module : Option String) : Reference where
  id := id
  symbol := "helper"
  region := ⟨⟨line, 1⟩, ⟨line, 7⟩⟩
  url := ""
  version := some "1.0.0"
  referer := ⟨repo, "src/Main.elm", some "Main"⟩
  referred := ⟨"lib/util", "src/Util.elm", module⟩

def earlierSession : List Operation :=
  [.replaceReferences "me/app" [helperReference "me/app" "1" 3 (some "Util")], .markImported "me/app"]

/-- Two uses with one locator, neither of which knows the module. -/
def laterReferences : List Reference :=
  [helperReference "me/tool" "2" 3 none, helperReference "me/tool" "2" 4 none]

/-- The second use comes back, with the module that another repository has given. -/
theorem replaceReferences_round_trip_shared :
    Consistent (given earlierSession ++ laterReferences) ∧
    (∃ x ∈ ((run earlierSession).replaceReferences "me/tool" laterReferences).2.referencesFrom
      "me/tool", x.region.start.line = 4 ∧ x.referred.module = some "Util") ∧
    (((run earlierSession).replaceReferences "me/tool" laterReferences).2.replaceReferences "me/tool"
      laterReferences) = (run earlierSession).replaceReferences "me/tool" laterReferences := by
  have hc : Consistent (given earlierSession ++ laterReferences) :=
    ⟨by decide +kernel, by decide +kernel⟩
  obtain ⟨hmem, -, -, -, hagain⟩ := replaceReferences_round_trip "me/tool" hc
  refine ⟨hc, ⟨_, (hmem _).mpr ⟨helperReference "me/tool" "2" 4 none, ?_, rfl⟩, ?_, ?_⟩, hagain⟩
  · decide +kernel
  · decide +kernel
  · decide +kernel

end Store
end UsageGraph
