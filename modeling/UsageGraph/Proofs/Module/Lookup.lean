import UsageGraph.Module.Cache
import UsageGraph.Proofs.FileTree.Places

/-! # One lookup in the module cache

* `FileTree.source`: the text that an absolute path leads to; `FileTree.source_congr` says that it
  is the same under every spelling of the path that does not end in a slash.
* `ModuleCache.uncached`: the module of a file that is read now.
* `ModuleCache.moduleOf_cases`: all that a lookup can do.
* `ModuleCache.moduleOf_of_readFrom`: in a tree that stays the same, a lookup gives what reading the
  file gives.
-/

namespace UsageGraph
set_option autoImplicit false

/-! ## Sources -/

/-- The components of a path once it is absolute. -/
def Path.key? (cwd p : String) : Option (List Part) := (absolute? cwd p).map parts

theorem Path.key?_of_isAbsolute {p : String} (h : isAbsolute p) (cwd cwd' : String) :
    key? cwd p = key? cwd' p := by
  rw [key?, key?, absolute?_of_isAbsolute h cwd cwd']

theorem Path.key?_self_of_isAbsolute {p : String} (h : isAbsolute p) (cwd : String) :
    key? cwd p = some (parts p) := by
  have hne : p ≠ "" := by
    rintro rfl
    cases h
  obtain ⟨q, hq⟩ : ∃ q, absolute? cwd p = some q := ⟨_, absolute?_of_ne cwd hne⟩
  rw [key?, hq, Option.map_some, parts_of_absolute? hq h]

namespace FileTree

/-- The text of the file that a path leads to once it is absolute. -/
def source (t : FileTree) (path : String) : Except Fault String :=
  match Path.absolute? t.cwd path with
  | none => .error (.io .emptyPath)
  | some p => ofIo (t.readText p)

variable {t : FileTree} {path : String}

theorem source_eq_ok {s : String} : t.source path = .ok s ↔
    ∃ p, Path.absolute? t.cwd path = some p ∧ t.readText p = .ok s := by
  rw [source]
  cases Path.absolute? t.cwd path with
  | none => simp
  | some p => cases hr : t.readText p <;> simp [ofIo, hr]

/-- A file is found under every spelling of its path that does not end in a slash. -/
theorem source_congr {path' s : String} (hkey : Path.key? t.cwd path = Path.key? t.cwd path')
    (hslash : Path.endsInSlash path' = false) (h : t.source path = .ok s) :
    t.source path' = .ok s := by
  obtain ⟨p, hp, hread⟩ := source_eq_ok.mp h
  rw [Path.key?, hp, Option.map_some] at hkey
  obtain ⟨p', hp', hparts⟩ := Option.map_eq_some_iff.mp hkey.symm
  have hfirm := firm_of_readText hread
  have hfirm' : Path.Firm p' :=
    Path.firm_absolute? hp' hslash (Path.way_congr hparts ▸ hfirm.way_ne_nil)
  exact source_eq_ok.mpr ⟨p', hp', readText_congr t hfirm' hfirm hparts ▸ hread⟩

/-- A firm path leads to the same text under every firm spelling. -/
theorem source_eq_of_firm (t : FileTree) {p q : String} (hp : Path.Firm p) (hq : Path.Firm q)
    (h : Path.parts p = Path.parts q) : t.source p = t.source q := by
  obtain ⟨p', habs, hfirm, hparts⟩ := hp.exists_absolute? t.cwd
  obtain ⟨q', habs', hfirm', hparts'⟩ := hq.exists_absolute? t.cwd
  have hsame : Path.parts p' = Path.parts q' := by
    rw [hparts, hparts', Path.fromRoot_congr t.cwd h]
  rw [source, source, habs, habs']
  exact congrArg ofIo (readText_congr t hfirm hfirm' hsame)

end FileTree

namespace ModuleCache

/-! ## Entries -/

section
variable {c : ModuleCache} {key : List Path.Part} {m : CachedModule}

theorem mem_insert {e : List Path.Part × CachedModule} :
    e ∈ (c.insert key m).entries ↔ e = (key, m) ∨ e ∈ c.entries ∧ e.1 ≠ key := by
  simp [insert]

theorem mem_of_hit? {fingerprint : String} (h : c.hit? key fingerprint = some m) :
    (key, m) ∈ c.entries ∧ m.fingerprint = fingerprint := by
  obtain ⟨hget, hsame⟩ := Option.filter_eq_some_iff.mp h
  exact ⟨mem_of_lookup hget, eq_of_beq hsame⟩

theorem nodup_insert (h : (c.entries.map Prod.fst).Nodup) :
    ((c.insert key m).entries.map Prod.fst).Nodup := by
  rw [insert, List.map_cons, List.nodup_cons]
  refine ⟨?_, h.sublist (List.filter_sublist.map _)⟩
  intro hmem
  obtain ⟨e, he, hkey⟩ := List.mem_map.mp hmem
  exact of_decide_eq_true (List.mem_filter.mp he).2 hkey

end

/-! ## Lookups -/

/-- The module of a file that is read now. -/
def uncached (t : FileTree) (path : String) : Except Fault (Option String) :=
  (t.source path).map declaredModule?

section
variable {t : FileTree} {c : ModuleCache} {path fingerprint p : String}

theorem outcome_readModule_ok {s : String} (h : t.readText p = .ok s) :
    (readModule t p fingerprint c).result = .ok (declaredModule? s) ∧
      (readModule t p fingerprint c).state =
        c.insert (Path.parts p) ⟨fingerprint, declaredModule? s⟩ := by
  have hread : (Task.ofResult (ofIo (t.readText p)) c).result = .ok s := by
    rw [Task.result_ofResult, h]
    rfl
  rw [readModule, Task.result_bind_ok _ hread, Task.state_bind_ok _ hread]
  exact ⟨rfl, rfl⟩

theorem outcome_readModule_error {e : IoCause} (h : t.readText p = .error e) :
    (readModule t p fingerprint c).result = .error (.io e) ∧
      (readModule t p fingerprint c).state = c := by
  have hread : (Task.ofResult (ofIo (t.readText p)) c).result = .error (.io e) := by
    rw [Task.result_ofResult, h]
    rfl
  rw [readModule, Task.result_bind_error _ hread, Task.state_bind_error _ hread]
  exact ⟨rfl, rfl⟩

theorem moduleOf_of_hit {m : CachedModule} (hp : Path.absolute? t.cwd path = some p)
    (hm : c.hit? (Path.parts p) fingerprint = some m) :
    (moduleOf t path fingerprint c).result = .ok m.module ∧
      (moduleOf t path fingerprint c).state = c := by
  have hstate : (Task.state c).result = .ok c := rfl
  simp only [moduleOf, hp]
  rw [Task.result_bind_ok _ hstate, Task.state_bind_ok _ hstate, hm]
  exact ⟨rfl, rfl⟩

theorem moduleOf_of_miss (hp : Path.absolute? t.cwd path = some p)
    (hm : c.hit? (Path.parts p) fingerprint = none) :
    (moduleOf t path fingerprint c).result = (readModule t p fingerprint c).result ∧
      (moduleOf t path fingerprint c).state = (readModule t p fingerprint c).state := by
  have hstate : (Task.state c).result = .ok c := rfl
  simp only [moduleOf, hp]
  rw [Task.result_bind_ok _ hstate, Task.state_bind_ok _ hstate, hm]
  exact ⟨rfl, rfl⟩

end

/-- A lookup finds an entry, or reads the file and keeps its module, or reads in vain. -/
theorem moduleOf_cases (t : FileTree) (c : ModuleCache) (path fingerprint : String) :
    (∃ k m, Path.key? t.cwd path = some k ∧ c.hit? k fingerprint = some m ∧
      (moduleOf t path fingerprint c).result = .ok m.module ∧
      (moduleOf t path fingerprint c).state = c) ∨
    (∃ k s, Path.key? t.cwd path = some k ∧ t.source path = .ok s ∧
      (moduleOf t path fingerprint c).result = .ok (declaredModule? s) ∧
      (moduleOf t path fingerprint c).state = c.insert k ⟨fingerprint, declaredModule? s⟩) ∨
    ∃ f, t.source path = .error f ∧ (moduleOf t path fingerprint c).result = .error f ∧
      (moduleOf t path fingerprint c).state = c := by
  cases hp : Path.absolute? t.cwd path with
  | none =>
    refine .inr (.inr ⟨.io .emptyPath, ?_, ?_, ?_⟩)
    · rw [FileTree.source, hp]
    · simp only [moduleOf, hp, Task.result_fail]
    · simp only [moduleOf, hp, Task.state_fail]
  | some p =>
    have hkey : Path.key? t.cwd path = some (Path.parts p) := by
      rw [Path.key?, hp, Option.map_some]
    cases hm : c.hit? (Path.parts p) fingerprint with
    | some m => exact .inl ⟨_, m, hkey, hm, moduleOf_of_hit hp hm⟩
    | none =>
      obtain ⟨hresult, hstate⟩ := moduleOf_of_miss hp hm
      rw [hresult, hstate]
      cases hread : t.readText p with
      | ok s =>
        have hsource := FileTree.source_eq_ok.mpr ⟨p, hp, hread⟩
        exact .inr (.inl ⟨_, s, hkey, hsource, outcome_readModule_ok hread⟩)
      | error e =>
        have hsource : t.source path = .error (.io e) := by
          rw [FileTree.source, hp]
          exact congrArg ofIo hread
        exact .inr (.inr ⟨_, hsource, outcome_readModule_error hread⟩)

/-! ## Lookups in a tree that stays the same -/

/-- Every entry says what a file of the tree declares. -/
def ReadFrom (t : FileTree) (c : ModuleCache) : Prop :=
  ∀ e ∈ c.entries, ∃ path s, Path.key? t.cwd path = some e.1 ∧ t.source path = .ok s ∧
    e.2.module = declaredModule? s

theorem readFrom_empty (t : FileTree) : ReadFrom t empty := fun _ h => (List.not_mem_nil h).elim

theorem moduleOf_of_readFrom {t : FileTree} {c : ModuleCache} (h : ReadFrom t c)
    (path fingerprint : String) :
    ReadFrom t (moduleOf t path fingerprint c).state ∧
    (Path.endsInSlash path = false →
      (moduleOf t path fingerprint c).result = uncached t path) := by
  rcases moduleOf_cases t c path fingerprint with ⟨k, m, hk, hhit, hresult, hstate⟩ |
    ⟨k, s, hk, hsource, hresult, hstate⟩ | ⟨f, hsource, hresult, hstate⟩ <;> rw [hresult, hstate]
  · refine ⟨h, fun hslash => ?_⟩
    obtain ⟨path', s, hkey, hsource, hm⟩ := h _ (mem_of_hit? hhit).1
    rw [uncached, FileTree.source_congr (hkey.trans hk.symm) hslash hsource, hm]
    rfl
  · refine ⟨fun e he => ?_, fun _ => by rw [uncached, hsource]; rfl⟩
    rcases mem_insert.mp he with rfl | ⟨hmem, -⟩
    · exact ⟨path, s, hk, hsource, rfl⟩
    · exact h e hmem
  · exact ⟨h, fun _ => by rw [uncached, hsource]; rfl⟩

end ModuleCache
end UsageGraph
