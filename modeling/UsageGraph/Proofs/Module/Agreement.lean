import UsageGraph.Proofs.Module.Transparency
import UsageGraph.Proofs.Tasks

/-! # Module caches that agree on a directory

* `ModuleCache.AgreeUnder`: two caches that know the same about all files below a directory.
* `ModuleCache.agreeUnder_invalidateUnder`: they do so once both have forgotten the directory.
* `ModuleCache.alike_moduleOf`: they answer alike about a file below it, and agree afterwards.
-/

namespace UsageGraph
set_option autoImplicit false

namespace ModuleCache

def AgreeUnder (dir : List Path.Part) (c c' : ModuleCache) : Prop :=
  ∀ key, dir <+: key → c.get? key = c'.get? key

section
variable {dir : List Path.Part} {c c' : ModuleCache}

/-! ## Entries by key -/

theorem get?_insert (c : ModuleCache) (key key' : List Path.Part) (m : CachedModule) :
    (c.insert key m).get? key' = if key' = key then some m else c.get? key' := by
  rw [get?, insert, List.lookup_cons]
  by_cases hkey : key' = key
  · simp [hkey]
  · rw [beq_false_of_ne hkey, lookup_filter (fun k => k ≠ key), if_pos (decide_eq_true hkey),
      if_neg hkey]
    rfl

theorem get?_invalidateUnder_of_covers {cwd root : String} {key : List Path.Part}
    (h : Covers cwd root key) : (c.invalidateUnder cwd root).get? key = none := by
  obtain ⟨r, hr, hprefix⟩ := h
  obtain ⟨p, hp, rfl⟩ := Option.map_eq_some_iff.mp hr
  have hgone : (Path.parts p).isPrefixOf key = true := List.isPrefixOf_iff_prefix.mpr hprefix
  rw [invalidateUnder, hp, get?, lookup_filter fun k => !(Path.parts p).isPrefixOf k, hgone]
  rfl

/-! ## Agreement -/

theorem AgreeUnder.insert (h : AgreeUnder dir c c') (key : List Path.Part) (m : CachedModule) :
    AgreeUnder dir (c.insert key m) (c'.insert key m) := by
  intro key' hprefix
  rw [get?_insert, get?_insert, h key' hprefix]

theorem agreeUnder_invalidateUnder {cwd root : String} (h : Path.key? cwd root = some dir)
    (c c' : ModuleCache) :
    AgreeUnder dir (c.invalidateUnder cwd root) (c'.invalidateUnder cwd root) := by
  intro key hprefix
  have hcovers : Covers cwd root key := ⟨dir, h, hprefix⟩
  rw [get?_invalidateUnder_of_covers hcovers, get?_invalidateUnder_of_covers hcovers]

/-! ## Lookups -/

variable {t : FileTree} {path fingerprint : String}

theorem alike_readModule (h : AgreeUnder dir c c') (t : FileTree) (path fingerprint : String) :
    (readModule t path fingerprint c).Alike (AgreeUnder dir)
      (readModule t path fingerprint c') := by
  refine (Outcome.alike_const h _ _).bind fun source _ h => ?_
  refine (Outcome.alike_const h _ _).bind fun _ _ h => ?_
  have hinsert := h.insert (Path.parts path) ⟨fingerprint, declaredModule? source⟩
  exact Outcome.Alike.bind ⟨rfl, rfl, hinsert⟩ fun _ _ h => Outcome.alike_const h _ _

theorem moduleOf_eq {p : String} (hp : Path.absolute? t.cwd path = some p) (c : ModuleCache) :
    moduleOf t path fingerprint c =
      (match c.hit? (Path.parts p) fingerprint with
        | some m => return m.module
        | none => readModule t p fingerprint : Task ModuleCache (Option String)) c := by
  simp only [moduleOf, hp]
  rfl

theorem alike_moduleOf (h : AgreeUnder dir c c')
    (hkey : ∀ key, Path.key? t.cwd path = some key → dir <+: key) :
    (moduleOf t path fingerprint c).Alike (AgreeUnder dir) (moduleOf t path fingerprint c') := by
  cases hp : Path.absolute? t.cwd path with
  | none =>
    simp only [moduleOf, hp]
    exact Outcome.alike_const h _ _
  | some p =>
    have hprefix : dir <+: Path.parts p := by
      refine hkey _ ?_
      rw [Path.key?, hp, Option.map_some]
    have hhit : c.hit? (Path.parts p) fingerprint = c'.hit? (Path.parts p) fingerprint := by
      rw [hit?, hit?, h _ hprefix]
    rw [moduleOf_eq hp, moduleOf_eq hp, hhit]
    cases c'.hit? (Path.parts p) fingerprint with
    | some m => exact Outcome.alike_const h _ _
    | none => exact alike_readModule h t p fingerprint

end

end ModuleCache
end UsageGraph
