import UsageGraph.Store.Queries

/-! # Replacing what is stored of a repository

* `Store.withRepositories`: the repository rows, which no query about findings reads.
* `Store.Linked`: every reference of a repository has its symbol and its two files.
* `Store.count_replaceReferences`: as many references as are counted can be asked for.
* `Store.intervalsOf_replaceIntervals`: intervals in order are given back as they were stored.
-/

namespace UsageGraph
set_option autoImplicit false

namespace Store

/-! ## Repository rows -/

def withRepositories (s : Store) (rows : Table RepositoryRow) : Store :=
  { s with repositories := rows }

theorem enqueue_of_known {s : Store} {r : Repository} (h : s.repositories.contains r.id.fullName) :
    s.enqueue r = (false, s) := if_pos h

theorem enqueue_of_new {s : Store} {r : Repository} (h : ¬s.repositories.contains r.id.fullName) :
    s.enqueue r = (true, s.withRepositories
      (s.repositories.insert r.id.fullName (repositoryRow r ⟨none, none⟩))) := if_neg h

theorem enqueue_eq (s : Store) (r : Repository) :
    ∃ rows, (s.enqueue r).2 = s.withRepositories rows := by
  by_cases hknown : s.repositories.contains r.id.fullName
  · exact ⟨s.repositories, by rw [enqueue_of_known hknown]; rfl⟩
  · exact ⟨_, by rw [enqueue_of_new hknown]⟩

theorem upsert_eq (s : Store) (r : Repository) (l : Lifetime) :
    ∃ rows, s.upsert r l = s.withRepositories rows := ⟨_, rfl⟩

theorem markImported_eq (s : Store) (repo : String) :
    ∃ rows, s.markImported repo = s.withRepositories rows := by
  unfold markImported
  split
  · exact ⟨s.repositories, rfl⟩
  · exact ⟨_, rfl⟩

section
variable (s : Store) (rows : Table RepositoryRow) (repo : String)

@[simp] theorem referencesFrom_withRepositories :
    (s.withRepositories rows).referencesFrom repo = s.referencesFrom repo := rfl

@[simp] theorem intervalsOf_withRepositories :
    (s.withRepositories rows).intervalsOf repo = s.intervalsOf repo := rfl

theorem putFile_withRepositories (f : FileRef) :
    (s.withRepositories rows).putFile f = (s.putFile f).withRepositories rows := rfl

theorem putSymbol_withRepositories (id name : String) :
    (s.withRepositories rows).putSymbol id name = (s.putSymbol id name).withRepositories rows := by
  change (if s.symbols.contains id then _ else _) = _
  rw [putSymbol]
  split <;> rfl

theorem putReference_withRepositories (r : Reference) :
    putReference repo (s.withRepositories rows) r =
      (putReference repo s r).withRepositories rows := by
  simp only [putReference, putFile_withRepositories, putSymbol_withRepositories]
  rfl

theorem replaceReferences_withRepositories (rs : List Reference) :
    ((s.withRepositories rows).replaceReferences repo rs).2 =
      (s.replaceReferences repo rs).2.withRepositories rows := by
  have hput : ∀ t : Store, rs.foldl (putReference repo) (t.withRepositories rows) =
      (rs.foldl (putReference repo) t).withRepositories rows := by
    induction rs with
    | nil => exact fun _ => rfl
    | cons r rs ih =>
      intro t
      rw [List.foldl_cons, putReference_withRepositories, ih, List.foldl_cons]
  exact hput (s.dropReferences repo)

theorem referencesFrom_markImported (other : String) :
    (s.markImported repo).referencesFrom other = s.referencesFrom other := by
  obtain ⟨rows, hrows⟩ := markImported_eq s repo
  rw [hrows, referencesFrom_withRepositories]

theorem intervalsOf_markImported (other : String) :
    (s.markImported repo).intervalsOf other = s.intervalsOf other := by
  obtain ⟨rows, hrows⟩ := markImported_eq s repo
  rw [hrows, intervalsOf_withRepositories]

end

/-! ## Links -/

/-- Every reference that is stored under a repository has its symbol and its two files. -/
def Linked (s : Store) (repo : String) : Prop :=
  ∀ p ∈ s.references.entries, p.2.repo = repo → (s.reference? p).isSome

/-- Files and symbols that are known stay known. -/
structure Keeps (s t : Store) : Prop where
  files : ∀ id, s.files.contains id → t.files.contains id
  symbols : ∀ id, s.symbols.contains id → t.symbols.contains id

theorem Keeps.trans {s t u : Store} (h : s.Keeps t) (h' : t.Keeps u) : s.Keeps u where
  files id hid := h'.files id (h.files id hid)
  symbols id hid := h'.symbols id (h.symbols id hid)

theorem isSome_reference? {s : Store} {p : String × ReferenceRow} : (s.reference? p).isSome ↔
    s.symbols.contains p.2.symbolId ∧ s.files.contains p.2.referer ∧
      s.files.contains p.2.referred := by
  rw [reference?, fileRef?, fileRef?, Table.contains, Table.contains, Table.contains]
  cases s.symbols.get? p.2.symbolId <;> cases s.files.get? p.2.referer <;>
    cases s.files.get? p.2.referred <;> simp

theorem keeps_putFile (s : Store) (f : FileRef) : s.Keeps (s.putFile f) where
  files _ h := Table.contains_insert.mpr (.inr h)
  symbols _ h := h

theorem keeps_putSymbol (s : Store) (id name : String) : s.Keeps (s.putSymbol id name) := by
  unfold putSymbol
  split
  · exact ⟨fun _ h => h, fun _ h => h⟩
  · exact ⟨fun _ h => h, fun _ h => Table.contains_insert.mpr (.inr h)⟩

theorem contains_putSymbol (s : Store) (id name : String) :
    (s.putSymbol id name).symbols.contains id := by
  unfold putSymbol
  split
  · assumption
  · exact Table.contains_insert.mpr (.inl rfl)

/-- The files and the symbol of a reference, without the reference. -/
def link (s : Store) (r : Reference) : Store :=
  ((s.putFile r.referer).putFile r.referred).putSymbol r.symbolId r.symbol

theorem references_putSymbol (s : Store) (id name : String) :
    (s.putSymbol id name).references = s.references := by
  unfold putSymbol
  split <;> rfl

theorem putReference_eq (repo : String) (s : Store) (r : Reference) : putReference repo s r =
    { s.link r with references := s.references.insert r.id (referenceRow repo r) } := by
  rw [← show (s.link r).references = s.references from references_putSymbol _ _ _]
  rfl

theorem rest_putReference (repo : String) (s : Store) (r : Reference) :
    (putReference repo s r).repositories = s.repositories ∧
      (putReference repo s r).intervals = s.intervals := by
  rw [putReference_eq, link, putSymbol]
  split <;> exact ⟨rfl, rfl⟩

theorem rest_foldl (s : Store) (repo : String) (rs : List Reference) :
    (rs.foldl (putReference repo) s).repositories = s.repositories ∧
      (rs.foldl (putReference repo) s).intervals = s.intervals := by
  induction rs generalizing s with
  | nil => exact ⟨rfl, rfl⟩
  | cons r rs ih =>
    obtain ⟨hrepositories, hintervals⟩ := rest_putReference repo s r
    rw [List.foldl_cons, (ih _).1, (ih _).2]
    exact ⟨hrepositories, hintervals⟩

theorem rest_replaceReferences (s : Store) (repo : String) (rs : List Reference) :
    (s.replaceReferences repo rs).2.repositories = s.repositories ∧
      (s.replaceReferences repo rs).2.intervals = s.intervals :=
  rest_foldl (s.dropReferences repo) repo rs

theorem keeps_link (s : Store) (r : Reference) : s.Keeps (s.link r) :=
  ((keeps_putFile s r.referer).trans (keeps_putFile _ r.referred)).trans (keeps_putSymbol _ _ _)

theorem isSome_reference?_link (s : Store) (repo : String) (r : Reference) :
    ((s.link r).reference? (r.id, referenceRow repo r)).isSome := by
  have hreferred : ((s.putFile r.referer).putFile r.referred).files.contains r.referred.id :=
    Table.contains_insert.mpr (.inl rfl)
  have hreferer : ((s.putFile r.referer).putFile r.referred).files.contains r.referer.id :=
    Table.contains_insert.mpr (.inr (Table.contains_insert.mpr (.inl rfl)))
  have hkeeps : ((s.putFile r.referer).putFile r.referred).Keeps (s.link r) :=
    keeps_putSymbol _ _ _
  exact isSome_reference?.mpr
    ⟨contains_putSymbol _ _ _, hkeeps.files _ hreferer, hkeeps.files _ hreferred⟩

theorem Linked.putReference {s : Store} {other : String} (h : s.Linked other) (repo : String)
    (r : Reference) : (putReference repo s r).Linked other := by
  rw [putReference_eq]
  rintro ⟨id, row⟩ hp hrow
  change ((s.link r).reference? (id, row)).isSome
  rw [Table.mem_entries, Table.get?_insert] at hp
  split at hp
  · next hid =>
    cases hp
    rw [hid]
    exact isSome_reference?_link s repo r
  · obtain ⟨hsymbol, hreferer, hreferred⟩ :=
      isSome_reference?.mp (h (id, row) (Table.mem_entries.mpr hp) hrow)
    have hkeeps := keeps_link s r
    exact isSome_reference?.mpr
      ⟨hkeeps.symbols _ hsymbol, hkeeps.files _ hreferer, hkeeps.files _ hreferred⟩

theorem Linked.foldl {s : Store} {other : String} (h : s.Linked other) (repo : String)
    (rs : List Reference) : (rs.foldl (Store.putReference repo) s).Linked other := by
  induction rs generalizing s with
  | nil => exact h
  | cons r rs ih => exact ih (h.putReference repo r)

theorem linked_dropReferences (s : Store) (repo : String) : (s.dropReferences repo).Linked repo := by
  intro p hp hrow
  have hother := (List.mem_filter.mp hp).2
  simp [hrow] at hother

theorem linked_replaceReferences (s : Store) (repo : String) (rs : List Reference) :
    (s.replaceReferences repo rs).2.Linked repo := (linked_dropReferences s repo).foldl repo rs

theorem Linked.replaceReferences {s : Store} {other : String} (h : s.Linked other) (repo : String)
    (rs : List Reference) : (s.replaceReferences repo rs).2.Linked other := by
  have hdrop : (s.dropReferences repo).Linked other := fun p hp hrow =>
    h p (List.mem_filter.mp hp).1 hrow
  exact hdrop.foldl repo rs

/-! ## Counts -/

theorem countReferences_of_linked {s : Store} {repo : String} (h : s.Linked repo) :
    s.countReferences repo = (s.referencesFrom repo).length := by
  rw [countReferences, referencesFrom, List.length_mergeSort, List.countP_eq_length_filter]
  refine (List.filterMap_length_eq_length.mpr fun p hp => ?_).symm
  obtain ⟨hp, hrow⟩ := List.mem_filter.mp hp
  exact h p hp (of_decide_eq_true hrow)

theorem count_replaceReferences (s : Store) (repo : String) (rs : List Reference) :
    (s.replaceReferences repo rs).1 = ((s.replaceReferences repo rs).2.referencesFrom repo).length :=
  countReferences_of_linked (linked_replaceReferences s repo rs)

theorem referencesFrom_replaceReferences_nil (s : Store) (repo : String) :
    (s.replaceReferences repo []).2.referencesFrom repo = [] := by
  rw [← List.length_eq_zero_iff, ← count_replaceReferences]
  refine List.countP_eq_zero.mpr fun p hp hrow => ?_
  have hother := (List.mem_filter.mp hp).2
  simp [of_decide_eq_true hrow] at hother

/-! ## Intervals -/

theorem isLE_compareIntervals {i j : Interval} (h : i.dependency < j.dependency ∨
    i.dependency = j.dependency ∧ i.start ≤ j.start) : (compareIntervals i j).isLE := by
  rcases h with hlt | ⟨heq, hle⟩
  · have hcompare : Ord.compare i.dependency j.dependency = .lt :=
      compareOfLessAndEq_eq_lt.mpr hlt
    simp [compareIntervals, lexicographic, hcompare]
  · have hstart := Int.isLE_compare.mpr (Int64.le_iff_toInt_le.mp hle)
    rw [compareIntervals, heq, lexicographic, List.foldr_cons, Std.compare_self, List.foldr_cons,
      List.foldr_nil, Ordering.then_eq]
    exact hstart

theorem intervalsOf_replaceIntervals (s : Store) {repo : String} {is : List Interval}
    (howner : ∀ i ∈ is, i.owner = repo) (hsorted : is.Pairwise fun i j =>
      i.dependency < j.dependency ∨ i.dependency = j.dependency ∧ i.start ≤ j.start) :
    (s.replaceIntervals repo is).2.intervalsOf repo = is := by
  have hmap : is.map (fun i => { i with owner := repo }) = is := by
    refine (List.map_congr_left fun i hi => ?_).trans (List.map_id is)
    rw [← howner i hi]
    rfl
  have hold : (s.intervals.filter fun i => i.owner ≠ repo).filter (fun i => i.owner = repo) = [] := by
    simp
  have hnew : is.filter (fun i => i.owner = repo) = is :=
    List.filter_eq_self.mpr fun i hi => decide_eq_true (howner i hi)
  rw [intervalsOf, replaceIntervals, hmap, List.filter_append, hold, hnew, List.nil_append]
  exact List.mergeSort_of_pairwise (hsorted.imp isLE_compareIntervals)

end Store
end UsageGraph
