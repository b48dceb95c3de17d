import Mathlib.Data.List.Basic
import UsageGraph.Proofs.Module.Resolution
import UsageGraph.Proofs.Package.Ids
import UsageGraph.Reference.Basic

/-! # The keys of files and symbols

A key is put together from names with slashes and dots between them, and some of these names may
hold the one or the other.

* `Undotted`: a text with a slash whose last name has no dot. The key of a symbol begins with one.
* `Undotted.append_injective`: such a text can be told from the symbol that follows it after a dot.
* `Reference.keys_injective`: different files have different keys, and so have different symbols.
-/

namespace UsageGraph
open Text
set_option autoImplicit false

/-! ## Texts before a symbol -/

/-- Behind the last slash stands no dot. -/
def Undotted (s : List Char) : Prop :=
  ∃ dir name, s = dir ++ '/' :: name ∧ '/' ∉ name ∧ '.' ∉ name

theorem Undotted.leaf {s : List Char} (h : Undotted s) :
    '.' ∉ Path.leaf s ∧ ∃ dir, s = dir ++ '/' :: Path.leaf s := by
  obtain ⟨dir, name, rfl, hslash, hdot⟩ := h
  have hleaf : Path.leaf (dir ++ '/' :: name) = name := by
    rw [Path.leaf_append, Path.leaf_of_notMem hslash]
  rw [hleaf]
  exact ⟨hdot, dir, rfl⟩

/-- The name behind the last slash of a symbol without dots has no dot either. -/
theorem notMem_leaf_of_slash {s x : List Char} (hslash : '/' ∈ x) (hdot : '.' ∉ x) :
    '.' ∉ Path.leaf (s ++ '.' :: x) := by
  obtain ⟨a, b, rfl⟩ := List.append_of_mem hslash
  have hlong : s ++ '.' :: (a ++ '/' :: b) = (s ++ '.' :: a) ++ '/' :: b := by simp
  rw [hlong, Path.leaf_append]
  intro hmem
  exact hdot (List.mem_append_right _ (List.mem_cons_of_mem _ (Path.mem_of_mem_leaf hmem)))

section
variable {s t x y : List Char}

/-- Without a slash in the symbols, what they follow is found behind the last slash, where it ends
at the first dot. -/
theorem Undotted.append_injective_of_slash (hs : Undotted s) (ht : Undotted t) (hx : '/' ∉ x)
    (hy : '/' ∉ y) (h : s ++ '.' :: x = t ++ '.' :: y) : s = t ∧ x = y := by
  obtain ⟨hs, dir, hsplit⟩ := hs.leaf
  obtain ⟨ht, dir', hsplit'⟩ := ht.leaf
  have hxdot : '/' ∉ '.' :: x := by simpa using hx
  have hydot : '/' ∉ '.' :: y := by simpa using hy
  have hleaf := congrArg Path.leaf h
  rw [Path.leaf_append_of_notMem s hxdot, Path.leaf_append_of_notMem t hydot] at hleaf
  have hsame := (append_cons_injective hs ht hleaf).2
  rw [hsame] at h
  exact ⟨List.append_cancel_right h, hsame⟩

/-- A symbol may hold slashes or dots, but not both. If only one of two symbols holds a slash, that
one leaves no dot behind the last slash, and the other does. -/
theorem Undotted.append_injective (hs : Undotted s) (ht : Undotted t) (hx : '/' ∉ x ∨ '.' ∉ x)
    (hy : '/' ∉ y ∨ '.' ∉ y) (h : s ++ '.' :: x = t ++ '.' :: y) : s = t ∧ x = y := by
  have hmixed : ∀ {s t x y : List Char}, '/' ∉ x → '/' ∈ y → '.' ∉ y →
      s ++ '.' :: x ≠ t ++ '.' :: y := by
    intro s t x y hx hy hydot h
    have hxdot : '/' ∉ '.' :: x := by simpa using hx
    refine notMem_leaf_of_slash (s := t) hy hydot ?_
    rw [← h, Path.leaf_append_of_notMem s hxdot]
    exact List.mem_append_right _ List.mem_cons_self
  by_cases hxslash : '/' ∈ x
  · have hxdot := hx.resolve_left (not_not_intro hxslash)
    by_cases hyslash : '/' ∈ y
    · have hydot := hy.resolve_left (not_not_intro hyslash)
      exact append_cons_injective_right hxdot hydot h
    · exact absurd h.symm (hmixed hyslash hxslash hxdot)
  · by_cases hyslash : '/' ∈ y
    · exact absurd h (hmixed hxslash hyslash (hy.resolve_left (not_not_intro hyslash)))
    · exact hs.append_injective_of_slash ht hxslash hyslash h

end

/-! ## Files of modules -/

/-- The file of a module below a source directory. -/
def ModuleFile (file : String) : Prop :=
  ∃ dir module, file = joinRelative dir (modulePath module)

theorem leaf_modulePath (module : String) : ∃ name, '.' ∉ name ∧
    Path.leaf (modulePath module).toList = name ++ '.' :: sourceExtension.toList := by
  let name := module.toList.map fun c => if c = '.' then '/' else c
  have hdot : '.' ∉ name := by
    intro hmem
    obtain ⟨c, -, hc⟩ := List.mem_map.mp hmem
    split at hc
    · cases hc
    · next hne => exact hne hc
  have htext : (modulePath module).toList = name ++ '.' :: sourceExtension.toList := by
    rw [modulePath, String.toList_append, String.toList_append, String.toList_ofList,
      List.append_assoc]
    rfl
  refine ⟨Path.leaf name, fun hmem => hdot (Path.mem_of_mem_leaf hmem), ?_⟩
  rw [htext, Path.leaf_append_of_notMem name (by decide)]

/-- The key of the file of a module is cut before its extension. -/
theorem ModuleFile.undotted {f : FileRef} (h : ModuleFile f.file) : ∃ stem, Undotted stem ∧
    f.id.toList = stem ++ '.' :: sourceExtension.toList ∧
      (withoutExtension f.id).toList = stem := by
  obtain ⟨dir, module, hfile⟩ := h
  obtain ⟨name, hdot, hname⟩ := leaf_modulePath module
  have hid : f.id.toList = f.repo.toList ++ '/' :: f.file.toList := by
    rw [FileRef.id, String.toList_append, String.toList_append, List.append_assoc]
    rfl
  have hleaf : Path.leaf f.id.toList = name ++ '.' :: sourceExtension.toList := by
    rw [hid, Path.leaf_append, hfile, leaf_joinRelative dir (firm_modulePath module), hname]
  have hslash : '/' ∉ name := fun hmem =>
    Path.notMem_leaf f.id.toList (hleaf ▸ List.mem_append_left _ hmem)
  rcases Path.eq_leaf_or_exists f.id.toList with hall | ⟨before, hall⟩
  · refine absurd ?_ (Path.notMem_leaf f.id.toList)
    rw [← hall, hid]
    exact List.mem_append_right _ List.mem_cons_self
  · have htext : f.id.toList = (before ++ '/' :: name) ++ '.' :: sourceExtension.toList := by
      rw [hall, hleaf, List.append_assoc, List.cons_append]
    refine ⟨before ++ '/' :: name, ⟨before, name, rfl, hslash, hdot⟩, htext, ?_⟩
    rw [withoutExtension, htext, splitLast_append _ (by decide)]
    exact String.toList_ofList

/-! ## Keys of references -/

namespace Reference

/-- Both repositories go by accepted names, the referred file is that of a module, and the symbol
holds slashes or dots, but not both. -/
structure Keyed (r : Reference) : Prop where
  referer : PackageId.Accepted r.referer.repo
  referred : PackageId.Accepted r.referred.repo
  file : ModuleFile r.referred.file
  symbol : '/' ∉ r.symbol.toList ∨ '.' ∉ r.symbol.toList

variable {r s : Reference}

theorem toList_symbolId (r : Reference) : r.symbolId.toList =
    (withoutExtension r.referred.id).toList ++ '.' :: r.symbol.toList := by
  rw [symbolId, String.toList_append, String.toList_append, List.append_assoc]
  rfl

theorem symbolId_injective (hr : r.Keyed) (hs : s.Keyed) (h : r.symbolId = s.symbolId) :
    r.referred.id = s.referred.id ∧ r.symbol = s.symbol := by
  obtain ⟨stem, hstem, hid, hcut⟩ := hr.file.undotted
  obtain ⟨stem', hstem', hid', hcut'⟩ := hs.file.undotted
  have hchars := congrArg String.toList h
  rw [toList_symbolId, toList_symbolId, hcut, hcut'] at hchars
  obtain ⟨hsame, hsymbol⟩ := hstem.append_injective hstem' hr.symbol hs.symbol hchars
  refine ⟨String.toList_injective ?_, String.toList_injective hsymbol⟩
  rw [hid, hid', hsame]

/-- Two of the files that two references name have one key only if they are one file of one
repository, and two symbols have one key only if they are one symbol of one file. -/
theorem keys_injective (hr : r.Keyed) (hs : s.Keyed) :
    (∀ f ∈ [r.referer, r.referred], ∀ g ∈ [s.referer, s.referred], f.id = g.id →
      f.repo = g.repo ∧ f.file = g.file) ∧
    (r.symbolId = s.symbolId → r.referred.repo = s.referred.repo ∧
      r.referred.file = s.referred.file ∧ r.symbol = s.symbol) := by
  have hfiles : ∀ f ∈ [r.referer, r.referred], ∀ g ∈ [s.referer, s.referred], f.id = g.id →
      f.repo = g.repo ∧ f.file = g.file := by
    intro f hf g hg h
    have haccepted : ∀ {x : Reference}, x.Keyed → ∀ f ∈ [x.referer, x.referred],
        PackageId.Accepted f.repo := by
      intro x hx f hf
      rcases List.mem_pair.mp hf with rfl | rfl
      · exact hx.referer
      · exact hx.referred
    exact PackageId.append_slash_injective (haccepted hr f hf) (haccepted hs g hg) h
  refine ⟨hfiles, fun h => ?_⟩
  obtain ⟨hid, hsymbol⟩ := symbolId_injective hr hs h
  obtain ⟨hrepo, hfile⟩ := hfiles r.referred (by simp) s.referred (by simp) hid
  exact ⟨hrepo, hfile, hsymbol⟩

/-- An operator with slashes, in a source directory with a dot. -/
def slashUse : Reference := ⟨"1", "</>", ⟨⟨3, 1⟩, ⟨3, 4⟩⟩, "u", some "2.0.0",
  ⟨"me/app", "src/Main.elm", none⟩, ⟨"evancz/url-parser", "src.v2/Url/Parser.elm", none⟩⟩

/-- An operator with a dot, in the same file. -/
def dotUse : Reference := { slashUse with id := "2", symbol := "|." }

theorem keyed_slashUse : slashUse.Keyed where
  referer := by decide +kernel
  referred := by decide +kernel
  file := ⟨"./src.v2/", "Url.Parser", by decide +kernel⟩
  symbol := .inr (by decide)

theorem keyed_dotUse : dotUse.Keyed where
  referer := keyed_slashUse.referer
  referred := keyed_slashUse.referred
  file := keyed_slashUse.file
  symbol := .inl (by decide)

/-- The two operators have different keys, and each key stands for one file. -/
theorem keys_injective_operators :
    slashUse.symbolId ≠ dotUse.symbolId ∧ slashUse.referred.id = dotUse.referred.id ∧
      slashUse.referred.file = dotUse.referred.file := by
  obtain ⟨hfiles, hsymbols⟩ := keys_injective keyed_slashUse keyed_dotUse
  have hid : slashUse.referred.id = dotUse.referred.id := rfl
  refine ⟨fun h => ?_, hid, (hfiles _ (by simp) _ (by simp) hid).2⟩
  have hsymbol : slashUse.symbol ≠ dotUse.symbol := by decide
  exact hsymbol (hsymbols h).2.2

end Reference
end UsageGraph
