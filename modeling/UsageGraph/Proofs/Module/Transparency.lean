import UsageGraph.Import.ReferencePass
import UsageGraph.Proofs.Module.Lookup
import Mathlib.Data.List.Induction

/-! # The module cache goes unnoticed

* `ModuleCache.Step`, `ModuleCache.run`: lookups and invalidations, with any change of the files in
  between.
* `ModuleCache.Steady`: a file that is looked up again under the same fingerprint, with no
  invalidation in between that covers it, is the same file.
* `ModuleCache.Justified`: an entry says what an earlier lookup has read, and nothing has
  invalidated it since. Every step keeps all entries justified.
* `ModuleCache.moduleOf_transparent`: in a steady run a lookup gives what reading the file now gives.
-/

namespace UsageGraph
set_option autoImplicit false

namespace ModuleCache

/-! ## Runs -/

inductive Step where
  | lookup (path fingerprint : String)
  | invalidate (root : String)
  /-- Files are written or removed. -/
  | edit (entries : List (Location × Entry))

def Step.apply (s : Site) : Step → Site
  | lookup path fingerprint =>
    { s with modules := (moduleOf s.tree path fingerprint s.modules).state }
  | invalidate root => { s with modules := s.modules.invalidateUnder s.tree.cwd root }
  | edit entries => { s with tree := { s.tree with entries := entries } }

/-- Starts with a cache that knows nothing. -/
def run (t : FileTree) (steps : List Step) : Site := steps.foldl Step.apply ⟨t, .empty⟩

section
variable (t : FileTree) (steps : List Step) (step : Step)

theorem run_concat : run t (steps ++ [step]) = step.apply (run t steps) := by
  rw [run, List.foldl_append]
  rfl

/-- Nothing moves the working directory. -/
theorem cwd_run : (run t steps).tree.cwd = t.cwd := by
  induction steps using List.reverseRecOn with
  | nil => rfl
  | append_singleton steps step ih =>
    rw [run_concat]
    cases step <;> exact ih

end

/-- The directory is at the place or above it. -/
def Covers (cwd root : String) (key : List Path.Part) : Prop :=
  ∃ r, Path.key? cwd root = some r ∧ r <+: key

theorem mem_invalidateUnder {c : ModuleCache} {cwd root : String}
    {e : List Path.Part × CachedModule} :
    e ∈ (c.invalidateUnder cwd root).entries ↔ e ∈ c.entries ∧ ¬Covers cwd root e.1 := by
  rw [invalidateUnder, Covers, Path.key?]
  cases Path.absolute? cwd root with
  | none => simp
  | some r => simp [← List.isPrefixOf_iff_prefix]

/-! ## Justified entries -/

section
variable {t : FileTree} {steps : List Step} {key : List Path.Part} {m : CachedModule}

/-- The entry says what a lookup has read, and no directory above has been invalidated since. -/
def Justified (t : FileTree) (steps : List Step) (key : List Path.Part) (m : CachedModule) : Prop :=
  ∃ before path between s, steps = before ++ .lookup path m.fingerprint :: between ∧
    Path.key? t.cwd path = some key ∧
    (∀ root, .invalidate root ∈ between → ¬Covers t.cwd root key) ∧
    (run t before).tree.source path = .ok s ∧ m.module = declaredModule? s

theorem Justified.concat (h : Justified t steps key m) {step : Step}
    (hstep : ∀ root, step = .invalidate root → ¬Covers t.cwd root key) :
    Justified t (steps ++ [step]) key m := by
  obtain ⟨before, path, between, s, hsteps, hkey, hbetween, hsource, hm⟩ := h
  refine ⟨before, path, between ++ [step], s, ?_, hkey, fun root hroot => ?_, hsource, hm⟩
  · rw [hsteps, List.append_assoc, List.cons_append]
  · rcases List.mem_append.mp hroot with hroot | hroot
    · exact hbetween root hroot
    · exact hstep root (List.mem_singleton.mp hroot).symm

/-- What is put into the cache has just been read. -/
theorem justified_of_lookup {path fingerprint s : String}
    (hkey : Path.key? t.cwd path = some key) (hsource : (run t steps).tree.source path = .ok s) :
    Justified t (steps ++ [.lookup path fingerprint]) key ⟨fingerprint, declaredModule? s⟩ :=
  ⟨steps, path, [], s, rfl, hkey, fun _ h => (List.not_mem_nil h).elim, hsource, rfl⟩

theorem justified_of_mem (h : (key, m) ∈ (run t steps).modules.entries) :
    Justified t steps key m := by
  induction steps using List.reverseRecOn generalizing key m with
  | nil => cases h
  | append_singleton steps step ih =>
    rw [run_concat] at h
    cases step with
    | lookup path fingerprint =>
      have hkept : ∀ {key m}, (key, m) ∈ (run t steps).modules.entries →
          Justified t (steps ++ [.lookup path fingerprint]) key m :=
        fun h => (ih h).concat nofun
      change (key, m) ∈ (moduleOf _ path fingerprint (run t steps).modules).state.entries at h
      rcases moduleOf_cases (run t steps).tree (run t steps).modules path fingerprint with
        ⟨_, _, _, _, _, hstate⟩ | ⟨k, s, hk, hsource, _, hstate⟩ | ⟨_, _, _, hstate⟩
      · rw [hstate] at h
        exact hkept h
      · rw [hstate, mem_insert] at h
        rcases h with h | h
        · cases h
          rw [cwd_run] at hk
          exact justified_of_lookup hk hsource
        · exact hkept h.1
      · rw [hstate] at h
        exact hkept h
    | invalidate root =>
      obtain ⟨hold, hroot⟩ := mem_invalidateUnder.mp h
      rw [cwd_run] at hroot
      refine (ih hold).concat fun root' hroot' => ?_
      cases hroot'
      exact hroot
    | edit entries => exact (ih h).concat nofun

theorem nodup_run (t : FileTree) (steps : List Step) :
    ((run t steps).modules.entries.map Prod.fst).Nodup := by
  induction steps using List.reverseRecOn with
  | nil => exact List.nodup_nil
  | append_singleton steps step ih =>
    rw [run_concat]
    cases step with
    | lookup path fingerprint =>
      change ((moduleOf _ path fingerprint (run t steps).modules).state.entries.map Prod.fst).Nodup
      rcases moduleOf_cases (run t steps).tree (run t steps).modules path fingerprint with
        ⟨_, _, _, _, _, hstate⟩ | ⟨k, s, _, _, _, hstate⟩ | ⟨_, _, _, hstate⟩
      · rw [hstate]
        exact ih
      · rw [hstate]
        exact nodup_insert ih
      · rw [hstate]
        exact ih
    | invalidate root =>
      change ((invalidateUnder _ _ root).entries.map Prod.fst).Nodup
      rw [invalidateUnder]
      split
      · exact ih
      · exact ih.sublist (List.filter_sublist.map _)
    | edit entries => exact ih

end

/-! ## Transparency -/

/-- Whenever a path is looked up again under the same fingerprint, and no directory above it was
invalidated in between, it leads to the same file as before. -/
def Steady (t : FileTree) (steps : List Step) : Prop :=
  ∀ before path fingerprint between path' after key,
    steps = before ++ .lookup path fingerprint :: between ++ .lookup path' fingerprint :: after →
    Path.key? t.cwd path = some key → Path.key? t.cwd path' = some key →
    (∀ root, .invalidate root ∈ between → ¬Covers t.cwd root key) →
    (run t (before ++ .lookup path fingerprint :: between)).tree.source path =
      (run t before).tree.source path

theorem steady_of_unedited {t : FileTree} {steps : List Step}
    (h : ∀ entries, .edit entries ∉ steps) : Steady t steps := by
  have htree : ∀ xs : List Step, (∀ x ∈ xs, x ∈ steps) → (run t xs).tree = t := by
    intro xs hxs
    induction xs using List.reverseRecOn with
    | nil => rfl
    | append_singleton xs x ih =>
      have hx := hxs x List.mem_concat_self
      rw [run_concat]
      cases x with
      | edit entries => exact absurd hx (h entries)
      | _ => exact ih fun y hy => hxs y (List.mem_append_left _ hy)
  intro before path fingerprint between path' after key hsteps _ _ _
  have hlong := htree (before ++ .lookup path fingerprint :: between) fun x hx => by
    rw [hsteps]
    exact List.mem_append_left _ hx
  have hshort := htree before fun x hx => by
    rw [hsteps, List.append_assoc]
    exact List.mem_append_left _ hx
  rw [hlong, hshort]

/-- In a steady run a lookup of a path that does not end in a slash gives what reading the file now
gives. There is never more than one entry for a path, and an invalidation takes away the entries at
or below the directory and no others. -/
theorem moduleOf_transparent {t : FileTree} {steps : List Step} (hsteady : Steady t steps) :
    (∀ before path fingerprint after, steps = before ++ .lookup path fingerprint :: after →
      Path.endsInSlash path = false →
      (moduleOf (run t before).tree path fingerprint (run t before).modules).result =
        uncached (run t before).tree path) ∧
    ((run t steps).modules.entries.map Prod.fst).Nodup ∧
    ∀ root e, e ∈ ((run t steps).modules.invalidateUnder t.cwd root).entries ↔
      e ∈ (run t steps).modules.entries ∧ ¬Covers t.cwd root e.1 := by
  refine ⟨?_, nodup_run t steps, fun root e => mem_invalidateUnder⟩
  intro now path' fingerprint after hsteps hslash
  rw [uncached]
  rcases moduleOf_cases (run t now).tree (run t now).modules path' fingerprint with
    ⟨k, m, hk, hhit, hresult, _⟩ | ⟨_, s, _, hsource, hresult, _⟩ | ⟨f, hsource, hresult, _⟩
  · -- The entry that is found was read earlier, from a file that is still the same.
    obtain ⟨hmem, hm⟩ := mem_of_hit? hhit
    obtain ⟨before, path, between, s, hnow, hkey, hbetween, hsource, hmodule⟩ :=
      justified_of_mem hmem
    rw [cwd_run] at hk
    rw [hm] at hnow
    have hsame := hsteady before path fingerprint between path' after k
      (by rw [hsteps, hnow]) hkey hk hbetween
    rw [← hnow, hsource] at hsame
    have hspelling : Path.key? (run t now).tree.cwd path = Path.key? (run t now).tree.cwd path' := by
      rw [cwd_run, hkey, hk]
    rw [hresult, FileTree.source_congr hspelling hslash hsame, hmodule]
    rfl
  · rw [hresult, hsource]
    rfl
  · rw [hresult, hsource]
    rfl

/-- Two source files, in directories of which the name of one starts with the name of the other. -/
def shelf : FileTree := ⟨[(["w"], .directory), (["w", "app"], .directory),
  (["w", "app", "M.elm"], .file (.text "module M")), (["w", "app2"], .directory),
  (["w", "app2", "N.elm"], .file (.text "module N"))], "/w"⟩

/-- One of the files changes under its fingerprint, and its directory is invalidated. -/
def reshelving : List Step := [.lookup "app/M.elm" "c1", .lookup "app2/N.elm" "d1",
  .edit [(["w"], .directory), (["w", "app"], .directory),
    (["w", "app", "M.elm"], .file (.text "module Renamed"))],
  .invalidate "app", .lookup "app/M.elm" "c1"]

theorem steady_reshelving : Steady shelf reshelving := by
  intro before path fingerprint between path' after key hsteps hkey _ hinvalid
  have hcovers : Covers shelf.cwd "app" [.root, .name ['w'], .name "app".toList,
      .name "M.elm".toList] := ⟨[.root, .name ['w'], .name "app".toList], by decide +kernel,
    by decide +kernel⟩
  have hmain : Path.key? shelf.cwd "app/M.elm" = some [.root, .name ['w'], .name "app".toList,
      .name "M.elm".toList] := by decide +kernel
  -- Only the first lookup and the last one are under the same fingerprint.
  have hpair : path = "app/M.elm" ∧ .invalidate "app" ∈ between := by
    simp [reshelving, List.append_eq_cons_iff, List.cons_eq_append_iff, and_or_left] at hsteps
    rcases hsteps with (⟨-, ⟨-, hone⟩, -, ⟨-, hother⟩, -⟩ | ⟨-, ⟨hpath, -⟩, rfl, -⟩) |
      ⟨-, ⟨-, hone⟩, -, ⟨-, hother⟩, -⟩
    · exact absurd (hone.symm.trans hother) (by decide)
    · exact ⟨hpath, by simp⟩
    · exact absurd (hone.symm.trans hother) (by decide)
  rw [hpair.1, hmain] at hkey
  cases hkey
  exact absurd hcovers (hinvalid "app" hpair.2)

/-- After its directory was invalidated, a changed file is read again under its old fingerprint. The
entry of the other file has survived. -/
theorem moduleOf_transparent_reshelving :
    (moduleOf (run shelf (reshelving.take 4)).tree "app/M.elm" "c1"
      (run shelf (reshelving.take 4)).modules).result =
        uncached (run shelf (reshelving.take 4)).tree "app/M.elm" ∧
    uncached (run shelf (reshelving.take 4)).tree "app/M.elm" = .ok (some "Renamed") ∧
    ((run shelf reshelving).modules.entries.map Prod.fst).Nodup ∧
    ∃ e ∈ (run shelf reshelving).modules.entries, e.2.module = some "N" ∧
      e ∈ ((run shelf reshelving).modules.invalidateUnder shelf.cwd "app").entries := by
  obtain ⟨hlookup, hnodup, hinvalidate⟩ := moduleOf_transparent steady_reshelving
  have hentry : (([.root, .name ['w'], .name "app2".toList, .name "N.elm".toList],
      ⟨"d1", some "N"⟩) : List Path.Part × CachedModule) ∈ (run shelf reshelving).modules.entries := by
    decide +kernel
  refine ⟨hlookup (reshelving.take 4) "app/M.elm" "c1" [] rfl (by decide +kernel),
    by decide +kernel, hnodup, _, hentry, rfl, (hinvalidate "app" _).mpr ⟨hentry, ?_⟩⟩
  rintro ⟨r, hr, hprefix⟩
  have happ : Path.key? shelf.cwd "app" = some [.root, .name ['w'], .name "app".toList] := by
    decide +kernel
  rw [happ] at hr
  cases hr
  exact absurd hprefix (by decide +kernel)

/-- A path that ends in a slash leads to no file, but shares the entry of the path without it. -/
theorem lookup_with_slash : Steady shelf [.lookup "app/M.elm" "c1", .lookup "app/M.elm/" "c1"] ∧
    (moduleOf (run shelf [.lookup "app/M.elm" "c1"]).tree "app/M.elm/" "c1"
      (run shelf [.lookup "app/M.elm" "c1"]).modules).result = .ok (some "M") ∧
    uncached (run shelf [.lookup "app/M.elm" "c1"]).tree "app/M.elm/" =
      .error (.io .notADirectory) := by
  refine ⟨steady_of_unedited fun entries h => ?_, by decide +kernel, by decide +kernel⟩
  simp at h

end ModuleCache
end UsageGraph
