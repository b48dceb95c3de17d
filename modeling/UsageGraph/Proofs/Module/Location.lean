import UsageGraph.Proofs.Module.Recall

/-! # The file that a module is resolved to

A module is looked for below the source directories of a package, and its file is named below the
root of the package. The two paths are put together in different ways.

* `Checkout.call_locates`: the named path goes from the package root through the source directory.
  It leads to the file that was found if that directory and the path of the module are relative.
* `Checkout.call_outside`: otherwise the named file need not be there.
-/

namespace UsageGraph
set_option autoImplicit false

/-- The path of a module is relative unless the module starts with a dot or a slash. -/
theorem isAbsolute_modulePath {module : String} (hdot : module.toList.head? ≠ some '.')
    (hslash : module.toList.head? ≠ some '/') : Path.isAbsolute (modulePath module) = false := by
  rw [Path.isAbsolute, modulePath, String.toList_append, String.toList_append, String.toList_ofList]
  cases hmodule : module.toList with
  | nil => decide
  | cons c cs =>
    rw [hmodule] at hdot hslash
    have hc : c ≠ '.' := fun he => hdot (he ▸ rfl)
    have hc' : c ≠ '/' := fun he => hslash (he ▸ rfl)
    simp [hc, hc']

namespace Checkout
variable {c : Checkout} {t : FileTree} {x : ModuleCall} {m : ResolvedModule}

theorem readFrom_resolveAll (calls : List ModuleCall) {packages : LoadedPackages}
    (h : LoadedPackages.ReadFrom t packages) :
    LoadedPackages.ReadFrom t (c.resolveAll t calls packages).state := by
  induction calls generalizing packages with
  | nil => exact h
  | cons x xs ih =>
    have hx := (c.resolve_spec x.package x.version x.module h).1
    rw [resolveAll, Task.state_bind_ok _ (Task.result_attempt packages _), Task.state_attempt,
      Task.state_bind]
    cases (c.resolveAll t xs (c.call t x packages).state).result <;> exact ih hx

/-- A module that is resolved lies in a package with a manifest, below one of the source directories
that the manifest names. -/
theorem exists_directory {packages : LoadedPackages} (hread : LoadedPackages.ReadFrom t packages)
    (h : (c.call t x packages).result = .ok m) :
    ∃ manifest, Manifest.read t m.packageRoot = .ok manifest ∧
      ∃ dir ∈ manifest.sourceDirectories, t.holds m.packageRoot x.module dir = true ∧
        m.file = joinRelative dir (modulePath x.module) := by
  rw [call, result_resolve] at h
  cases hroot : c.root x.package x.version x.module with
  | error f =>
    rw [hroot] at h
    cases h
  | ok r =>
    obtain ⟨root, pinned⟩ := r
    obtain ⟨-, ⟨p, q, hp, hq, halike⟩ | ⟨f, hp, -⟩⟩ :=
      loadPackage_spec hread x.package pinned root
    · simp only [bind, Except.bind, hroot, hp] at h
      obtain ⟨dir, hmem, hholds, rfl⟩ := Package.moduleFile_eq_ok h
      obtain ⟨manifest, hmanifest, rfl⟩ := Package.load_eq_ok.mp hq
      -- The package may have been loaded under another spelling of the root.
      obtain ⟨path, hmanifest'⟩ := Manifest.read_congr halike.root.symm hmanifest
      rw [halike.sourceDirectories] at hmem
      exact ⟨_, hmanifest', dir, hmem, hholds, rfl⟩
    · simp only [bind, Except.bind, hroot, hp] at h
      cases h

/-- Whatever calls come before it, a call that succeeds has found a file below a source directory of
the package. The path that names the file goes from the package root through that directory. It
leads to the file that was found if the directory is relative and the module starts with neither a
dot nor a slash. -/
theorem call_locates (calls : List ModuleCall)
    (h : (c.call t x (c.resolveAll t calls []).state).result = .ok m) :
    ∃ manifest, Manifest.read t m.packageRoot = .ok manifest ∧
      ∃ dir ∈ manifest.sourceDirectories, t.holds m.packageRoot x.module dir = true ∧
        Path.way m.absolutePath =
          Path.way m.packageRoot ++ Path.way dir ++ Path.way (modulePath x.module) ∧
        (Path.isAbsolute dir = false → x.module.toList.head? ≠ some '.' →
          x.module.toList.head? ≠ some '/' →
          t.isFile m.absolutePath = true ∧
          Path.SameWay m.absolutePath
            (Path.join (Path.join m.packageRoot dir) (modulePath x.module)) ∧
          t.locate m.absolutePath =
            t.locate (Path.join (Path.join m.packageRoot dir) (modulePath x.module))) := by
  have hnil : LoadedPackages.ReadFrom t [] := nofun
  obtain ⟨manifest, hmanifest, dir, hmem, hholds, hfile⟩ :=
    exists_directory (readFrom_resolveAll calls hnil) h
  have hfirm := firm_modulePath x.module
  refine ⟨manifest, hmanifest, dir, hmem, hholds, ?_, fun hdir hdot hslash => ?_⟩
  · rw [ResolvedModule.absolutePath, hfile, Path.way_join (isAbsolute_joinRelative dir _),
      way_joinRelative, List.append_assoc]
  · have hsame := sameWay_joinRelative m.packageRoot hdir (isAbsolute_modulePath hdot hslash)
    have hnamed : Path.Firm (Path.join m.packageRoot (joinRelative dir (modulePath x.module))) :=
      (firm_joinRelative dir hfirm).join _
    rw [ResolvedModule.absolutePath, hfile]
    refine ⟨?_, hsame, t.locate_of_sameWay hnamed (hfirm.join _) hsame⟩
    rw [t.isFile_of_sameWay hnamed (hfirm.join _) hsame]
    exact hholds

/-- One source directory is spelled with dots and slashes, the other is an absolute path. -/
def sharedLibrary : FileTree := ⟨[(["app"], .directory),
  (["app", "elm.json"],
    .file (.text "\x7b\"source-directories\": [\".//src/../src/\", \"/lib\"]\x7d")),
  (["app", "src"], .directory), (["app", "src", "M.elm"], .file (.text "")),
  (["lib"], .directory), (["lib", "N.elm"], .file (.text ""))], "/"⟩

def sharer : Checkout := ⟨⟨"me", "app"⟩, "/app", .empty⟩

/-- A call that fails comes first. -/
theorem call_locates_spelled :
    (sharer.call sharedLibrary ⟨⟨"me", "app"⟩, none, "M"⟩
        (sharer.resolveAll sharedLibrary [⟨⟨"me", "app"⟩, none, "K"⟩] []).state).result =
      .ok ⟨"/app", "src/../src/M.elm"⟩ ∧
    sharedLibrary.isFile (ResolvedModule.absolutePath ⟨"/app", "src/../src/M.elm"⟩) = true := by
  have h : (sharer.call sharedLibrary ⟨⟨"me", "app"⟩, none, "M"⟩
      (sharer.resolveAll sharedLibrary [⟨⟨"me", "app"⟩, none, "K"⟩] []).state).result =
        .ok ⟨"/app", "src/../src/M.elm"⟩ := by decide +kernel
  have hdirs : (Manifest.read sharedLibrary "/app").map (·.sourceDirectories) =
      .ok [".//src/../src/", "/lib"] := by decide +kernel
  have hlib : sharedLibrary.holds "/app" "M" "/lib" = false := by decide +kernel
  obtain ⟨manifest, hmanifest, dir, hmem, hholds, -, hnamed⟩ := call_locates _ h
  rw [hmanifest] at hdirs
  have hspelled : manifest.sourceDirectories = [".//src/../src/", "/lib"] := Except.ok.inj hdirs
  rw [hspelled] at hmem
  rcases List.mem_pair.mp hmem with rfl | rfl
  · exact ⟨h, (hnamed (by decide) (by decide) (by decide)).1⟩
  · rw [hlib] at hholds
    cases hholds

/-- The file that is found below an absolute source directory is named as a file below the package
root, where there is none. -/
theorem call_outside :
    (sharer.call sharedLibrary ⟨⟨"me", "app"⟩, none, "N"⟩ []).result = .ok ⟨"/app", "lib/N.elm"⟩ ∧
      sharedLibrary.holds "/app" "N" "/lib" = true ∧
      sharedLibrary.isFile (ResolvedModule.absolutePath ⟨"/app", "lib/N.elm"⟩) = false := by
  refine ⟨by decide +kernel, by decide +kernel, by decide +kernel⟩

end Checkout
end UsageGraph
