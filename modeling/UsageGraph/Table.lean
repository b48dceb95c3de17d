import UsageGraph.Text.Blank

/-! # Tables

Values by key, at most one for a key, in the byte order of the keys.

* `Table.insert`: adds a value, or replaces the one with the same key.
* `Table.get?`, `Table.erase`: the value for a key, and the table without it.
* `Table.ofList`: the table of some pairs; of pairs with one key the last counts.
* `Table.override`: all entries of two tables; those of the second win.

`Table.get?_insert`, `Table.get?_erase`, `Table.get?_ofList`, `Table.get?_override` and
`Table.mem_entries` say what these do to the values, and `Table.ext_get?` that there is nothing else
to a table.
-/

namespace UsageGraph
set_option autoImplicit false

structure Table (α : Type) where
  entries : List (String × α)
  /-- Every key is there once. -/
  sorted : entries.Pairwise fun p q => p.1 < q.1
  deriving DecidableEq, Repr

namespace Table
variable {α β : Type}

/-! ## Sorted entries -/

def insertEntry (key : String) (value : α) : List (String × α) → List (String × α)
  | [] => [(key, value)]
  | (k, v) :: rest =>
    if key = k then (key, value) :: rest
    else if key < k then (key, value) :: (k, v) :: rest
    else (k, v) :: insertEntry key value rest

theorem lt_or_lt_of_ne {a b : String} (h : a ≠ b) : a < b ∨ b < a := by
  by_cases hab : a < b
  · exact .inl hab
  · refine .inr (Classical.byContradiction fun hba => h ?_)
    exact String.le_antisymm (String.not_lt.mp hba) (String.not_lt.mp hab)

theorem mem_insertEntry {key : String} {value : α} {es : List (String × α)} {p : String × α}
    (h : p ∈ insertEntry key value es) : p = (key, value) ∨ p ∈ es := by
  induction es with
  | nil => exact .inl (List.mem_singleton.mp h)
  | cons e es ih =>
    obtain ⟨k, v⟩ := e
    simp only [insertEntry] at h
    split at h
    · exact (List.mem_cons.mp h).imp_right (List.mem_cons_of_mem _)
    · split at h
      · exact List.mem_cons.mp h
      · rcases List.mem_cons.mp h with rfl | h
        · exact .inr List.mem_cons_self
        · exact (ih h).imp_right (List.mem_cons_of_mem _)

theorem sorted_insertEntry (key : String) (value : α) {es : List (String × α)}
    (h : es.Pairwise fun p q => p.1 < q.1) :
    (insertEntry key value es).Pairwise fun p q => p.1 < q.1 := by
  induction es with
  | nil => exact List.pairwise_singleton _ _
  | cons e es ih =>
    obtain ⟨k, v⟩ := e
    obtain ⟨hk, hes⟩ := List.pairwise_cons.mp h
    simp only [insertEntry]
    split
    · next hkey => exact List.pairwise_cons.mpr ⟨hkey ▸ hk, hes⟩
    · next hne =>
      split
      · next hlt =>
        refine List.pairwise_cons.mpr ⟨fun p hp => ?_, h⟩
        rcases List.mem_cons.mp hp with rfl | hp
        · exact hlt
        · exact String.lt_trans hlt (hk p hp)
      · next hge =>
        have hlt : k < key := (lt_or_lt_of_ne hne).resolve_left hge
        refine List.pairwise_cons.mpr ⟨fun p hp => ?_, ih hes⟩
        rcases mem_insertEntry hp with rfl | hp
        · exact hlt
        · exact hk p hp

theorem lookup_cons (key k : String) (v : α) (es : List (String × α)) :
    ((k, v) :: es).lookup key = if key = k then some v else es.lookup key := by
  by_cases h : key = k
  · simp [h]
  · rw [List.lookup_cons, beq_false_of_ne h, if_neg h]

theorem lookup_insertEntry (key key' : String) (value : α) (es : List (String × α)) :
    (insertEntry key value es).lookup key' =
      if key' = key then some value else es.lookup key' := by
  induction es with
  | nil => exact lookup_cons key' key value []
  | cons e es ih =>
    obtain ⟨k, v⟩ := e
    simp only [insertEntry]
    split
    · next hkey =>
      subst hkey
      rw [lookup_cons, lookup_cons]
      split <;> rfl
    · next hne =>
      split
      · rw [lookup_cons]
      · rw [lookup_cons, lookup_cons, ih]
        by_cases h : key' = k
        · rw [if_pos h, if_pos h, if_neg fun hkey => hne (hkey.symm.trans h)]
        · rw [if_neg h, if_neg h]

/-! ## Operations -/

def empty : Table α := ⟨[], .nil⟩

def insert (t : Table α) (key : String) (value : α) : Table α :=
  ⟨insertEntry key value t.entries, sorted_insertEntry key value t.sorted⟩

def get? (t : Table α) (key : String) : Option α := t.entries.lookup key

def filter (keep : String × α → Bool) (t : Table α) : Table α :=
  ⟨t.entries.filter keep, t.sorted.filter _⟩

def erase (t : Table α) (key : String) : Table α := t.filter fun p => p.1 ≠ key

def contains (t : Table α) (key : String) : Bool := (t.get? key).isSome

/-- What a function makes of the entries, in the order of the keys. -/
def map (f : String × α → β) (t : Table α) : List β := t.entries.map f

def size (t : Table α) : Nat := t.entries.length

def insertAll (t : Table α) (pairs : List (String × α)) : Table α :=
  pairs.foldl (fun t p => t.insert p.1 p.2) t

def ofList (pairs : List (String × α)) : Table α := insertAll empty pairs

def override (t s : Table α) : Table α := t.insertAll s.entries

/-! ## Values by key -/

@[simp] theorem get?_empty (key : String) : (empty : Table α).get? key = none := rfl

@[simp] theorem contains_iff {t : Table α} {key : String} :
    t.contains key = true ↔ ∃ v, t.get? key = some v := Option.isSome_iff_exists

theorem get?_insert (t : Table α) (key key' : String) (value : α) :
    (t.insert key value).get? key' = if key' = key then some value else t.get? key' :=
  lookup_insertEntry key key' value t.entries

@[simp] theorem get?_insert_self (t : Table α) (key : String) (value : α) :
    (t.insert key value).get? key = some value := by simp [get?_insert]

theorem get?_insert_of_ne (t : Table α) {key key' : String} (value : α) (h : key' ≠ key) :
    (t.insert key value).get? key' = t.get? key' := by simp [get?_insert, h]

theorem contains_insert {t : Table α} {key key' : String} {value : α} :
    (t.insert key value).contains key' = true ↔ key' = key ∨ t.contains key' = true := by
  rw [contains, contains, get?_insert]
  split <;> simp [*]

theorem lookup_eq_some_iff {es : List (String × α)} (h : es.Pairwise fun p q => p.1 < q.1)
    {key : String} {value : α} : es.lookup key = some value ↔ (key, value) ∈ es := by
  induction es with
  | nil => simp
  | cons e es ih =>
    obtain ⟨k, v⟩ := e
    obtain ⟨hk, hes⟩ := List.pairwise_cons.mp h
    rw [lookup_cons, List.mem_cons, Prod.mk.injEq]
    split
    · next hkey =>
      subst hkey
      have hno : (key, value) ∉ es := fun hmem => String.lt_irrefl key (hk _ hmem)
      simp [hno, eq_comm]
    · next hkey => rw [ih hes, or_iff_right fun he => hkey he.1]

theorem mem_entries {t : Table α} {key : String} {value : α} :
    (key, value) ∈ t.entries ↔ t.get? key = some value := (lookup_eq_some_iff t.sorted).symm

/-- A table is known by its values. -/
theorem ext_get? {t s : Table α} (h : ∀ key, t.get? key = s.get? key) : t = s := by
  have hnodup : ∀ t : Table α, t.entries.Nodup := by
    refine fun t => t.sorted.imp ?_
    rintro a b hab rfl
    exact String.lt_irrefl a.1 hab
  have hperm : t.entries.Perm s.entries := by
    refine (List.perm_ext_iff_of_nodup (hnodup t) (hnodup s)).mpr fun p => ?_
    obtain ⟨key, value⟩ := p
    rw [mem_entries, mem_entries, h]
  have hentries : t.entries = s.entries :=
    hperm.eq_of_pairwise (fun a b _ _ hab hba =>
      (String.lt_irrefl _ (String.lt_trans hab hba)).elim) t.sorted s.sorted
  cases t
  cases s
  cases hentries
  rfl

/-- Tables that agree on some keys and have no others are the same. -/
theorem ext_of_keys {t s : Table α} (keys : String → Prop) (ht : ∀ key, t.contains key → keys key)
    (hs : ∀ key, s.contains key → keys key) (h : ∀ key, keys key → t.get? key = s.get? key) :
    t = s := by
  have hnone : ∀ {t : Table α} {key}, ¬t.contains key → t.get? key = none := by
    intro t key hkey
    rwa [contains, Bool.not_eq_true, Option.isSome_eq_false_iff, Option.isNone_iff_eq_none] at hkey
  refine ext_get? fun key => ?_
  by_cases hkey : keys key
  · exact h key hkey
  · rw [hnone fun hk => hkey (ht key hk), hnone fun hk => hkey (hs key hk)]

theorem filter_lookup {es : List (String × α)} (h : es.Pairwise fun p q => p.1 < q.1)
    (key : String) :
    es.filter (fun p => p.1 = key) = ((es.lookup key).map fun v => (key, v)).toList := by
  induction es with
  | nil => rfl
  | cons e es ih =>
    obtain ⟨k, v⟩ := e
    obtain ⟨hk, hes⟩ := List.pairwise_cons.mp h
    rw [lookup_cons, List.filter_cons]
    by_cases hkey : key = k
    · subst hkey
      have hno : es.filter (fun p => decide (p.1 = key)) = [] := by
        refine List.filter_eq_nil_iff.mpr fun p hp he => ?_
        exact String.lt_irrefl key (of_decide_eq_true he ▸ hk p hp)
      simp [hno]
    · simp [hkey, Ne.symm hkey, ih hes]

theorem filter_key (t : Table α) (key : String) :
    t.entries.filter (fun p => p.1 = key) = ((t.get? key).map fun v => (key, v)).toList :=
  filter_lookup t.sorted key

theorem get?_filter (keep : String × α → Bool) (t : Table α) (key : String) :
    (t.filter keep).get? key = (t.get? key).filter fun v => keep (key, v) := by
  apply Option.ext
  intro v
  rw [← mem_entries, Option.filter_eq_some_iff, ← mem_entries]
  exact List.mem_filter

theorem get?_erase (t : Table α) (key key' : String) :
    (t.erase key).get? key' = if key' = key then none else t.get? key' := by
  rw [erase, get?_filter]
  by_cases h : key' = key
  · simp [h]
  · cases ht : t.get? key' <;> simp [h]

@[simp] theorem get?_erase_self (t : Table α) (key : String) : (t.erase key).get? key = none := by
  simp [get?_erase]

theorem get?_erase_of_ne (t : Table α) {key key' : String} (h : key' ≠ key) :
    (t.erase key).get? key' = t.get? key' := by simp [get?_erase, h]

/-- Of pairs with one key the last counts. -/
theorem get?_insertAll (t : Table α) (pairs : List (String × α)) (key : String) :
    (t.insertAll pairs).get? key = (pairs.reverse.lookup key).or (t.get? key) := by
  induction pairs generalizing t with
  | nil => rfl
  | cons p pairs ih =>
    have hinsert := ih (t.insert p.1 p.2)
    rw [get?_insert] at hinsert
    rw [insertAll, List.foldl_cons, ← insertAll, hinsert, List.reverse_cons, List.lookup_append,
      lookup_cons, Option.or_assoc]
    split <;> rfl

theorem get?_ofList (pairs : List (String × α)) (key : String) :
    (ofList pairs).get? key = pairs.reverse.lookup key := by
  rw [ofList, get?_insertAll, get?_empty, Option.or_none]

theorem lookup_reverse {es : List (String × α)} (h : es.Pairwise fun p q => p.1 < q.1)
    (key : String) : es.reverse.lookup key = es.lookup key := by
  induction es with
  | nil => rfl
  | cons e es ih =>
    obtain ⟨k, v⟩ := e
    obtain ⟨hk, hes⟩ := List.pairwise_cons.mp h
    rw [List.reverse_cons, List.lookup_append, ih hes, lookup_cons, lookup_cons]
    split
    · next hkey =>
      have hnone : es.lookup key = none := by
        rw [Option.eq_none_iff_forall_ne_some]
        intro w hw
        exact String.lt_irrefl key (hkey ▸ hk _ ((lookup_eq_some_iff hes).mp hw))
      rw [hnone, Option.none_or]
    · exact Option.or_none

theorem get?_override (t s : Table α) (key : String) :
    (t.override s).get? key = (s.get? key).or (t.get? key) := by
  rw [override, get?_insertAll, lookup_reverse s.sorted]
  rfl

theorem mem_keys {t : Table α} {key : String} :
    key ∈ t.map Prod.fst ↔ ∃ v, t.get? key = some v := by
  simp [map, ← mem_entries]

theorem nodup_keys (t : Table α) : (t.map Prod.fst).Nodup := by
  refine (List.pairwise_map.mpr t.sorted).imp ?_
  rintro a b hab rfl
  exact String.lt_irrefl a hab

end Table
end UsageGraph
