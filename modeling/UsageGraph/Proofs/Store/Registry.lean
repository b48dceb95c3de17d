import UsageGraph.Proofs.Store.Ledger
import UsageGraph.Store.Service

/-! # The repositories of a store

A repository has one row, which is under its full name, and is pending until it is marked.

* `Store.Keyed`: every row is under the full name of its repository. `Store.keyed_run` says that
  this is so after every session.
* `Store.get?_apply`: an operation makes of a row what it makes of the row alone.
* `Store.id_ne_of_mem_pending`: a repository that has been marked is not pending.
* `StoreService.Lawful`: a store that may refuse whatever it is asked, or do a part of it, but keeps
  its rows under their names and marks what it says it has marked.
-/

namespace UsageGraph
set_option autoImplicit false

def RepositoryRow.id (row : RepositoryRow) : PackageId := ⟨row.owner, row.name⟩

namespace Store

/-! ## Rows under their names -/

def Keyed (s : Store) : Prop :=
  ∀ key row, s.repositories.get? key = some row → key = row.id.fullName

theorem keyed_empty : Keyed .empty := nofun

section
variable {s : Store}

theorem Keyed.insert (h : s.Keyed) {key : String} {row : RepositoryRow}
    (hrow : key = row.id.fullName) :
    (s.withRepositories (s.repositories.insert key row)).Keyed := by
  intro key' row' hget
  change (s.repositories.insert key row).get? key' = some row' at hget
  rw [Table.get?_insert] at hget
  split at hget
  · next hkey =>
    cases hget
    rw [hkey, hrow]
  · exact h key' row' hget

theorem Keyed.enqueue (h : s.Keyed) (r : Repository) : (s.enqueue r).2.Keyed := by
  rw [Store.enqueue]
  split
  · exact h
  · exact h.insert rfl

theorem Keyed.upsert (h : s.Keyed) (r : Repository) (l : Lifetime) : (s.upsert r l).Keyed := by
  rw [Store.upsert]
  cases hold : s.repositories.get? r.id.fullName with
  | none => exact h.insert rfl
  | some old => exact h.insert (h _ old hold)

theorem Keyed.markImported (h : s.Keyed) (repo : String) : (s.markImported repo).Keyed := by
  rw [Store.markImported]
  cases hrow : s.repositories.get? repo with
  | none => exact h
  | some row => exact h.insert (h repo row hrow)

theorem Keyed.replaceReferences (h : s.Keyed) (repo : String) (rs : List Reference) :
    (s.replaceReferences repo rs).2.Keyed := by
  rw [Keyed, (rest_replaceReferences s repo rs).1]
  exact h

theorem Keyed.apply (h : s.Keyed) (op : Operation) : (op.apply s).Keyed := by
  cases op with
  | enqueue r => exact h.enqueue r
  | upsert r l => exact h.upsert r l
  | replaceReferences repo rs => exact h.replaceReferences repo rs
  | replaceIntervals repo is => exact h
  | markImported repo => exact h.markImported repo

theorem keyed_run (ops : List Operation) : (run ops).Keyed := by
  induction ops using List.reverseRecOn with
  | nil => exact keyed_empty
  | append_singleton ops op ih =>
    rw [run_concat]
    exact ih.apply op

/-! ## Pending repositories -/

theorem mem_pending {r : Repository} : r ∈ s.pending ↔ ∃ key row,
    s.repositories.get? key = some row ∧ row.imported = false ∧
      RepositoryRow.toRepository row = r := by
  simp only [pending, List.mem_map, List.mem_mergeSort, List.mem_filter, Bool.not_eq_true',
    Prod.exists, Table.mem_entries, and_assoc]

theorem get?_markImported_self (s : Store) (repo : String) :
    (s.markImported repo).repositories.get? repo =
      (s.repositories.get? repo).map fun row => { row with imported := true } := by
  rw [markImported]
  cases hrow : s.repositories.get? repo with
  | none => exact hrow
  | some row => exact Table.get?_insert_self _ _ _

/-- A repository that has been marked is not pending. -/
theorem id_ne_of_mem_pending (h : s.Keyed) (repo : PackageId) {r : Repository}
    (hr : r ∈ (s.markImported repo.fullName).pending) : r.id ≠ repo := by
  obtain ⟨key, row, hget, himported, rfl⟩ := mem_pending.mp hr
  rintro rfl
  have hkey : key = row.id.fullName := h.markImported _ key row hget
  have hmarked : (s.markImported row.id.fullName).repositories.get? row.id.fullName = some row :=
    hkey ▸ hget
  rw [get?_markImported_self] at hmarked
  obtain ⟨old, -, rfl⟩ := Option.map_eq_some_iff.mp hmarked
  cases himported

end

/-! ## What operations do to rows -/

/-- What an operation makes of the row of a repository. -/
def Operation.row (repo : String) : Operation → Option RepositoryRow → Option RepositoryRow
  | enqueue r, row =>
    if r.id.fullName = repo then some (row.getD (repositoryRow r ⟨none, none⟩)) else row
  | upsert r l, row =>
    if r.id.fullName = repo then
      some (row.elim (repositoryRow r l) fun old => RepositoryRow.refresh old (repositoryRow r l))
    else row
  | markImported marked, row =>
    if marked = repo then row.map fun old => { old with imported := true } else row
  | replaceReferences _ _, row | replaceIntervals _ _, row => row

theorem get?_apply (s : Store) (repo : String) (op : Operation) :
    (op.apply s).repositories.get? repo = op.row repo (s.repositories.get? repo) := by
  cases op with
  | enqueue r =>
    change (s.enqueue r).2.repositories.get? repo = _
    rw [Operation.row]
    by_cases hknown : s.repositories.contains r.id.fullName
    · rw [enqueue_of_known hknown]
      obtain ⟨old, hold⟩ := Table.contains_iff.mp hknown
      split
      · next hid => rw [← hid, hold, Option.getD_some]
      · rfl
    · rw [enqueue_of_new hknown]
      refine (Table.get?_insert _ _ _ _).trans ?_
      split
      · next hid =>
        subst hid
        rw [if_pos rfl]
        cases hnew : s.repositories.get? r.id.fullName with
        | none => rfl
        | some old => exact absurd (Table.contains_iff.mpr ⟨old, hnew⟩) hknown
      · next hid => rw [if_neg (Ne.symm hid)]
  | upsert r l =>
    refine (Table.get?_insert _ _ _ _).trans ?_
    rw [Operation.row]
    by_cases hid : r.id.fullName = repo
    · subst hid
      rw [if_pos rfl, if_pos rfl]
      cases s.repositories.get? r.id.fullName <;> rfl
    · rw [if_neg hid, if_neg (Ne.symm hid)]
  | replaceReferences other rs =>
    exact congrArg (Table.get? · repo) (rest_replaceReferences s other rs).1
  | replaceIntervals other is => rfl
  | markImported marked =>
    rw [Operation.row]
    split
    · next hid =>
      subst hid
      exact get?_markImported_self s marked
    · next hid =>
      change (s.markImported marked).repositories.get? repo = _
      rw [markImported]
      cases s.repositories.get? marked with
      | none => rfl
      | some old => exact Table.get?_insert_of_ne _ _ (Ne.symm hid)

end Store

/-! ## Stores that may refuse -/

namespace StoreService

/-- Whatever is refused or left half done, rows stay under the names of their repositories. A mark
that is not refused is there. -/
structure Lawful (store : StoreService) : Prop where
  enter : ∀ s : Store, s.Keyed → (store.enter s).state.Keyed
  upsert : ∀ r l (s : Store), s.Keyed → (store.upsert r l s).state.Keyed
  replaceReferences : ∀ repo rs (s : Store), s.Keyed →
    (store.replaceReferences repo rs s).state.Keyed
  replaceIntervals : ∀ repo is (s : Store), s.Keyed →
    (store.replaceIntervals repo is s).state.Keyed
  markImported : ∀ repo (s : Store), (store.markImported repo s).result = .ok () →
    (store.markImported repo s).state = s.markImported repo

theorem lawful_standard : standard.Lawful where
  enter _ h := h
  upsert r l _ h := h.upsert r l
  replaceReferences repo rs _ h := h.replaceReferences repo rs
  replaceIntervals _ _ _ h := h
  markImported _ _ _ := rfl

end StoreService
end UsageGraph
