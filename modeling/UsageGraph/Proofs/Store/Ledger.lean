import UsageGraph.Proofs.Package.Ids
import UsageGraph.Proofs.Store.Replacement
import Mathlib.Data.List.Induction

/-! # What the store remembers

Files and symbols are shared by all references, and outlive them. What the store says about them
goes back to all references that it was ever given.

* `Store.Operation`, `Store.run`, `Store.given`: sessions with a store, and the references in them.
* `Store.linked_run`: after every session all references have their files and symbols.
* `FileRef.lastModule`: the last module that was given for a file.
* `Reference.Consistent`: references whose files and symbols can be told apart by their ids.
* `Store.Remembers`: the files and symbols of a store are those of the references that were given.
  `Store.remembers_run` says that this is so after every session.
-/

namespace UsageGraph
set_option autoImplicit false

/-! ## Sessions -/

namespace Store

inductive Operation where
  | enqueue (r : Repository)
  | upsert (r : Repository) (l : Lifetime)
  | replaceReferences (repo : String) (rs : List Reference)
  | replaceIntervals (repo : String) (is : List Interval)
  | markImported (repo : String)

namespace Operation

def apply (s : Store) : Operation → Store
  | enqueue r => (s.enqueue r).2
  | upsert r l => s.upsert r l
  | replaceReferences repo rs => (s.replaceReferences repo rs).2
  | replaceIntervals repo is => (s.replaceIntervals repo is).2
  | markImported repo => s.markImported repo

def given : Operation → List Reference
  | replaceReferences _ rs => rs
  | enqueue _ | upsert _ _ | replaceIntervals _ _ | markImported _ => []

end Operation

/-- A session starts with an empty store. -/
def run (ops : List Operation) : Store := ops.foldl Operation.apply .empty

/-- The references that the store was given, in the order in which it was. -/
def given (ops : List Operation) : List Reference := ops.flatMap Operation.given

section
variable (ops : List Operation) (op : Operation)

theorem run_concat : run (ops ++ [op]) = op.apply (run ops) := by
  rw [run, List.foldl_append]
  rfl

theorem given_concat : given (ops ++ [op]) = given ops ++ op.given := by
  rw [given, List.flatMap_append, List.flatMap_singleton]
  rfl

end

theorem Operation.apply_cases (s : Store) (op : Operation) :
    (op.given = [] ∧ ∃ rows, op.apply s = s.withRepositories rows) ∨
    (∃ repo rs, op = replaceReferences repo rs) ∨ ∃ repo is, op = replaceIntervals repo is := by
  cases op with
  | enqueue r => exact .inl ⟨rfl, enqueue_eq s r⟩
  | upsert r l => exact .inl ⟨rfl, upsert_eq s r l⟩
  | replaceReferences repo rs => exact .inr (.inl ⟨repo, rs, rfl⟩)
  | replaceIntervals repo is => exact .inr (.inr ⟨repo, is, rfl⟩)
  | markImported repo => exact .inl ⟨rfl, markImported_eq s repo⟩

/-- No reference of a session loses its symbol or its files. -/
theorem linked_run (ops : List Operation) (repo : String) : (run ops).Linked repo := by
  induction ops using List.reverseRecOn with
  | nil => exact fun _ hp _ => (List.not_mem_nil hp).elim
  | append_singleton ops op ih =>
    rw [run_concat]
    rcases op.apply_cases (run ops) with ⟨-, rows, hrows⟩ | ⟨other, rs, rfl⟩ | ⟨other, is, rfl⟩
    · rw [hrows]
      exact ih
    · exact ih.replaceReferences other rs
    · exact ih

end Store

/-! ## Files -/

namespace FileRef

/-- The last module that was given for any of some files. -/
def lastModuleWhere (which : FileRef → Bool) (gs : List FileRef) : Option String :=
  ((gs.filter which).filterMap FileRef.module).getLast?

theorem lastModuleWhere_append (which : FileRef → Bool) (gs hs : List FileRef) :
    lastModuleWhere which (gs ++ hs) =
      (lastModuleWhere which hs).or (lastModuleWhere which gs) := by
  rw [lastModuleWhere, List.filter_append, List.filterMap_append, List.getLast?_append]
  rfl

/-- The last module that was given for a file; none if none was. -/
def lastModule (gs : List FileRef) (repo file : String) : Option String :=
  ((gs.filter fun g => g.repo = repo ∧ g.file = file).filterMap FileRef.module).getLast?

section
variable (gs hs : List FileRef) (g : FileRef) (repo file : String)

theorem lastModule_append : lastModule (gs ++ hs) repo file =
    (lastModule hs repo file).or (lastModule gs repo file) := lastModuleWhere_append _ gs hs

theorem lastModule_concat : lastModule (gs ++ [g]) repo file =
    if g.repo = repo ∧ g.file = file then g.module.or (lastModule gs repo file)
    else lastModule gs repo file := by
  rw [lastModule_append, lastModule]
  by_cases h : g.repo = repo ∧ g.file = file
  · cases hm : g.module <;> simp [h, hm]
  · simp [h]

end

theorem id_injective {f g : FileRef} (hf : PackageId.Accepted f.repo)
    (hg : PackageId.Accepted g.repo) (h : f.id = g.id) : f.repo = g.repo ∧ f.file = g.file :=
  PackageId.append_slash_injective hf hg h

end FileRef

namespace Store

/-- The rows are those of the files that were given. -/
structure FilesFrom (files : Table FileRow) (gs : List FileRef) : Prop where
  row : ∀ g ∈ gs, files.get? g.id = some ⟨g.repo, g.file, FileRef.lastModule gs g.repo g.file⟩
  given : ∀ id, files.contains id → ∃ g ∈ gs, g.id = id

section
variable {s : Store} {gs : List FileRef} {f : FileRef}

theorem get?_putFile_of_ne {id : String} (h : id ≠ f.id) :
    (s.putFile f).files.get? id = s.files.get? id := Table.get?_insert_of_ne _ _ h

theorem FilesFrom.get?_putFile_self (h : FilesFrom s.files gs)
    (hsame : ∀ g ∈ gs, g.id = f.id → g.repo = f.repo ∧ g.file = f.file) :
    (s.putFile f).files.get? f.id =
      some ⟨f.repo, f.file, f.module.or (FileRef.lastModule gs f.repo f.file)⟩ := by
  rw [Store.putFile, Table.get?_insert_self]
  cases hold : s.files.get? f.id with
  | none =>
    -- A file without a row was not given before, so no module was given for it either.
    have hnew : ∀ g ∈ gs, ¬(g.repo = f.repo ∧ g.file = f.file) := by
      rintro g hg ⟨hrepo, hfile⟩
      have hrow := h.row g hg
      rw [FileRef.id, hrepo, hfile, ← FileRef.id, hold] at hrow
      cases hrow
    have hnone : FileRef.lastModule gs f.repo f.file = none := by
      rw [FileRef.lastModule, List.filter_eq_nil_iff.mpr fun g hg => by simpa using hnew g hg]
      rfl
    rw [hnone, Option.or_none]
  | some old =>
    -- The row goes back to a reference to a file with this id, which is the same file.
    obtain ⟨g, hg, hid⟩ := h.given f.id (Table.contains_iff.mpr ⟨old, hold⟩)
    obtain ⟨hrepo, hfile⟩ := hsame g hg hid
    have hrow := h.row g hg
    rw [hid, hold, hrepo, hfile] at hrow
    cases hrow
    cases f.module <;> rfl

theorem FilesFrom.putFile (h : FilesFrom s.files gs)
    (hrepos : ∀ g ∈ gs ++ [f], PackageId.Accepted g.repo) :
    FilesFrom (s.putFile f).files (gs ++ [f]) := by
  have hsame : ∀ g ∈ gs ++ [f], g.id = f.id → g.repo = f.repo ∧ g.file = f.file := fun g hg =>
    FileRef.id_injective (hrepos g hg) (hrepos f List.mem_concat_self)
  constructor
  · intro g hg
    rw [FileRef.lastModule_concat]
    by_cases hid : g.id = f.id
    · obtain ⟨hrepo, hfile⟩ := hsame g hg hid
      rw [if_pos ⟨hrepo.symm, hfile.symm⟩, hid, hrepo, hfile]
      exact h.get?_putFile_self fun g hg => hsame g (List.mem_append_left _ hg)
    · have hother : ¬(f.repo = g.repo ∧ f.file = g.file) := fun he =>
        hid (by rw [FileRef.id, FileRef.id, he.1, he.2])
      have hmem : g ∈ gs := (List.mem_append.mp hg).resolve_right fun hg =>
        hid (by rw [List.mem_singleton.mp hg])
      rw [if_neg hother, get?_putFile_of_ne hid]
      exact h.row g hmem
  · intro id hid
    rcases Table.contains_insert.mp hid with rfl | hid
    · exact ⟨f, List.mem_concat_self, rfl⟩
    · obtain ⟨g, hg, hid⟩ := h.given id hid
      exact ⟨g, List.mem_append_left _ hg, hid⟩

theorem FilesFrom.eq {files files' : Table FileRow} {gs gs' : List FileRef}
    (h : FilesFrom files gs) (h' : FilesFrom files' gs') (hmem : ∀ g, g ∈ gs ↔ g ∈ gs')
    (hlast : ∀ repo file, FileRef.lastModule gs repo file = FileRef.lastModule gs' repo file) :
    files = files' := by
  refine Table.ext_of_keys (fun id => ∃ g ∈ gs, g.id = id) h.given (fun id hid => ?_) ?_
  · obtain ⟨g, hg, hid⟩ := h'.given id hid
    exact ⟨g, (hmem g).mpr hg, hid⟩
  · rintro id ⟨g, hg, rfl⟩
    rw [h.row g hg, h'.row g ((hmem g).mp hg), hlast]

end

/-! ## Symbols -/

/-- The names are those of the symbols that were given. -/
structure SymbolsFrom (symbols : Table String) (rs : List Reference) : Prop where
  name : ∀ r ∈ rs, symbols.get? r.symbolId = some r.symbol
  given : ∀ id, symbols.contains id → ∃ r ∈ rs, r.symbolId = id

theorem files_putSymbol (s : Store) (id name : String) :
    (s.putSymbol id name).files = s.files := by
  unfold putSymbol
  split <;> rfl

theorem SymbolsFrom.putSymbol {s : Store} {rs : List Reference} {r : Reference}
    (h : SymbolsFrom s.symbols rs)
    (hnames : ∀ r' ∈ rs, r'.symbolId = r.symbolId → r'.symbol = r.symbol) :
    SymbolsFrom (s.putSymbol r.symbolId r.symbol).symbols (rs ++ [r]) := by
  rw [Store.putSymbol]
  split
  · next hold =>
    -- The name that is there was given by a reference with the same symbol.
    obtain ⟨r', hr', hid⟩ := h.given _ hold
    refine ⟨fun x hx => ?_, fun id hid => ?_⟩
    · rcases List.mem_append.mp hx with hx | hx
      · exact h.name x hx
      · rw [List.mem_singleton.mp hx, ← hid, ← hnames r' hr' hid]
        exact h.name r' hr'
    · obtain ⟨x, hx, hid⟩ := h.given id hid
      exact ⟨x, List.mem_append_left _ hx, hid⟩
  · next hnew =>
    refine ⟨fun x hx => ?_, fun id hid => ?_⟩
    · rcases List.mem_append.mp hx with hx | hx
      · have hne : x.symbolId ≠ r.symbolId := fun he =>
          hnew (Table.contains_iff.mpr ⟨x.symbol, he ▸ h.name x hx⟩)
        exact (Table.get?_insert_of_ne _ _ hne).trans (h.name x hx)
      · rw [List.mem_singleton.mp hx]
        exact Table.get?_insert_self _ _ _
    · rcases Table.contains_insert.mp hid with rfl | hid
      · exact ⟨r, List.mem_concat_self, rfl⟩
      · obtain ⟨x, hx, hid⟩ := h.given id hid
        exact ⟨x, List.mem_append_left _ hx, hid⟩

theorem SymbolsFrom.eq {symbols symbols' : Table String} {rs rs' : List Reference}
    (h : SymbolsFrom symbols rs) (h' : SymbolsFrom symbols' rs') (hmem : ∀ r, r ∈ rs ↔ r ∈ rs') :
    symbols = symbols' := by
  refine Table.ext_of_keys (fun id => ∃ r ∈ rs, r.symbolId = id) h.given (fun id hid => ?_) ?_
  · obtain ⟨r, hr, hid⟩ := h'.given id hid
    exact ⟨r, (hmem r).mpr hr, hid⟩
  · rintro id ⟨r, hr, rfl⟩
    rw [h.name r hr, h'.name r ((hmem r).mp hr)]

end Store

/-! ## Consistent references -/

namespace Reference

def fileRefs (r : Reference) : List FileRef := [r.referer, r.referred]

/-- The ids of files and symbols tell them apart. -/
structure Consistent (rs : List Reference) : Prop where
  repos : ∀ r ∈ rs, ∀ f ∈ r.fileRefs, PackageId.Accepted f.repo
  symbols : ∀ r ∈ rs, ∀ r' ∈ rs, r.symbolId = r'.symbolId → r.symbol = r'.symbol

theorem Consistent.subset {rs rs' : List Reference} (h : Consistent rs) (hsub : rs' ⊆ rs) :
    Consistent rs' where
  repos r hr := h.repos r (hsub hr)
  symbols r hr r' hr' := h.symbols r (hsub hr) r' (hsub hr')

end Reference

/-! ## All that was given -/

namespace Store

structure Remembers (s : Store) (rs : List Reference) : Prop where
  files : FilesFrom s.files (rs.flatMap Reference.fileRefs)
  symbols : SymbolsFrom s.symbols rs

theorem remembers_empty : Remembers .empty [] where
  files := ⟨fun _ h => (List.not_mem_nil h).elim, nofun⟩
  symbols := ⟨fun _ h => (List.not_mem_nil h).elim, nofun⟩

section
variable {s : Store} {rs : List Reference}

theorem Remembers.putReference (h : s.Remembers rs) (repo : String) {r : Reference}
    (hc : Reference.Consistent (rs ++ [r])) :
    (putReference repo s r).Remembers (rs ++ [r]) := by
  have hgiven : (rs ++ [r]).flatMap Reference.fileRefs =
      rs.flatMap Reference.fileRefs ++ [r.referer] ++ [r.referred] := by
    rw [List.flatMap_append, List.flatMap_singleton, List.append_assoc]
    rfl
  have hrepos : ∀ f ∈ rs.flatMap Reference.fileRefs ++ [r.referer] ++ [r.referred],
      PackageId.Accepted f.repo := by
    intro f hf
    rw [← hgiven] at hf
    obtain ⟨x, hx, hf⟩ := List.mem_flatMap.mp hf
    exact hc.repos x hx f hf
  have hfiles := (h.files.putFile fun f hf => hrepos f (List.mem_append_left _ hf)).putFile hrepos
  have hsymbols := SymbolsFrom.putSymbol (s := (s.putFile r.referer).putFile r.referred) (r := r)
    h.symbols fun x hx => hc.symbols x (List.mem_append_left _ hx) r List.mem_concat_self
  rw [putReference_eq]
  refine ⟨?_, hsymbols⟩
  change FilesFrom (s.link r).files _
  rw [link, files_putSymbol, hgiven]
  exact hfiles

theorem Remembers.foldl (h : s.Remembers rs) (repo : String) {rs' : List Reference}
    (hc : Reference.Consistent (rs ++ rs')) :
    (rs'.foldl (Store.putReference repo) s).Remembers (rs ++ rs') := by
  induction rs' generalizing s rs with
  | nil =>
    rw [List.append_nil]
    exact h
  | cons r rs' ih =>
    rw [List.append_cons] at hc ⊢
    exact ih (h.putReference repo (hc.subset (List.subset_append_left _ _))) hc

theorem Remembers.replaceReferences (h : s.Remembers rs) (repo : String) {rs' : List Reference}
    (hc : Reference.Consistent (rs ++ rs')) :
    (s.replaceReferences repo rs').2.Remembers (rs ++ rs') :=
  Remembers.foldl (s := s.dropReferences repo) ⟨h.files, h.symbols⟩ repo hc

theorem Remembers.withRepositories (h : s.Remembers rs) (rows : Table RepositoryRow) :
    (s.withRepositories rows).Remembers rs := ⟨h.files, h.symbols⟩

/-- Every operation keeps what the store remembers, and only references add to it. -/
theorem Remembers.apply (h : s.Remembers rs) (op : Operation)
    (hc : Reference.Consistent (rs ++ op.given)) : (op.apply s).Remembers (rs ++ op.given) := by
  rcases op.apply_cases s with ⟨hgiven, rows, hrows⟩ | ⟨repo, rs', rfl⟩ | ⟨repo, is, rfl⟩
  · rw [hgiven, List.append_nil, hrows]
    exact h.withRepositories rows
  · exact h.replaceReferences repo hc
  · rw [Operation.given, List.append_nil]
    exact ⟨h.files, h.symbols⟩

end

theorem remembers_run {ops : List Operation} (hc : Reference.Consistent (given ops)) :
    (run ops).Remembers (given ops) := by
  induction ops using List.reverseRecOn with
  | nil => exact remembers_empty
  | append_singleton ops op ih =>
    rw [given_concat] at hc
    rw [run_concat, given_concat]
    exact (ih (hc.subset (List.subset_append_left _ _))).apply op hc

end Store
end UsageGraph
