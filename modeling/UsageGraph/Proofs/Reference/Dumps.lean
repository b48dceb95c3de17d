import UsageGraph.Proofs.FileTree.Writing
import UsageGraph.Proofs.Package.Ids
import UsageGraph.Reference.Dump
import Mathlib.Data.List.Basic

/-! # Dumps of different repositories

The dump of a repository is named after its owner and its name, with an underscore between them. An
underscore may also be a part of either. So the dumps of two repositories can be of one name, and
then the one that is written last is the one that is left.

* `PackageId.Confusable`: ids that differ in where the underscore parts them.
* `dumpName_eq_iff`: these ids, and no other two, have dumps of one name.
* `dumpReferences_apart`: dumps of repositories that are not confusable leave each other alone.
* `dumpReferences_overwritten`: two that are.
-/

namespace UsageGraph
set_option autoImplicit false

/-! ## Names -/

namespace PackageId

/-- What stands between two underscores belongs to the owner of one id and to the name of the
other. -/
def Confusable (a b : PackageId) : Prop := ∃ s,
  a.owner = b.owner ++ "_" ++ s ∧ b.name = s ++ "_" ++ a.name ∨
  b.owner = a.owner ++ "_" ++ s ∧ a.name = s ++ "_" ++ b.name

end PackageId

theorem underscore_append_eq_iff {o n o' n' : List Char} :
    o ++ '_' :: n = o' ++ '_' :: n' ↔ (o = o' ∧ n = n') ∨ ∃ s,
      o = o' ++ '_' :: s ∧ n' = s ++ '_' :: n ∨ o' = o ++ '_' :: s ∧ n = s ++ '_' :: n' := by
  rw [List.append_eq_append_iff]
  constructor
  · rintro (⟨between, ho, hn⟩ | ⟨between, ho, hn⟩)
    · cases between with
      | nil =>
        rw [List.append_nil] at ho
        exact .inl ⟨ho.symm, (List.cons.inj hn).2⟩
      | cons c between =>
        obtain ⟨rfl, htail⟩ := List.cons.inj hn
        exact .inr ⟨between, .inr ⟨ho, htail⟩⟩
    · cases between with
      | nil =>
        rw [List.append_nil] at ho
        exact .inl ⟨ho, (List.cons.inj hn).2.symm⟩
      | cons c between =>
        obtain ⟨rfl, htail⟩ := List.cons.inj hn
        exact .inr ⟨between, .inl ⟨ho, htail⟩⟩
  · rintro (⟨rfl, rfl⟩ | ⟨s, ⟨ho, hn⟩ | ⟨ho, hn⟩⟩)
    · exact .inl ⟨[], (List.append_nil _).symm, rfl⟩
    · exact .inr ⟨'_' :: s, ho, congrArg _ hn⟩
    · exact .inl ⟨'_' :: s, ho, congrArg _ hn⟩

theorem toList_dumpName (id : PackageId) : (dumpName id).toList =
    id.owner.toList ++ '_' :: id.name.toList ++ ".json".toList := by
  simp [dumpName]

/-- The name of a dump tells the repository except for where an underscore parts it. -/
theorem dumpName_eq_iff {a b : PackageId} : dumpName a = dumpName b ↔ a = b ∨ a.Confusable b := by
  have hsplit : ∀ s t u : String, s = t ++ "_" ++ u ↔ s.toList = t.toList ++ '_' :: u.toList := by
    intro s t u
    rw [← String.toList_inj]
    simp
  have hsame : a = b ↔ a.owner.toList = b.owner.toList ∧ a.name.toList = b.name.toList := by
    rw [String.toList_inj, String.toList_inj]
    exact ⟨fun h => h ▸ ⟨rfl, rfl⟩, fun h => by cases a; cases b; cases h.1; cases h.2; rfl⟩
  have hpiece : ∀ P : List Char → Prop, (∃ s : String, P s.toList) ↔ ∃ s, P s := fun P =>
    ⟨fun ⟨s, hs⟩ => ⟨s.toList, hs⟩, fun ⟨s, hs⟩ => ⟨String.ofList s, by rwa [String.toList_ofList]⟩⟩
  rw [← String.toList_inj, toList_dumpName, toList_dumpName, List.append_cancel_right_eq,
    underscore_append_eq_iff, hsame, PackageId.Confusable]
  simp only [hsplit]
  rw [hpiece fun s => a.owner.toList = b.owner.toList ++ '_' :: s ∧
    b.name.toList = s ++ '_' :: a.name.toList ∨ b.owner.toList = a.owner.toList ++ '_' :: s ∧
      a.name.toList = s ++ '_' :: b.name.toList]

/-- Owners without underscores are never mistaken for a part of a name, and neither are names. -/
theorem PackageId.Confusable.underscores {a b : PackageId} (h : a.Confusable b) :
    ('_' ∈ a.owner.toList ∨ '_' ∈ b.owner.toList) ∧
      ('_' ∈ a.name.toList ∨ '_' ∈ b.name.toList) := by
  obtain ⟨s, ⟨howner, hname⟩ | ⟨howner, hname⟩⟩ := h
  · rw [howner, hname]
    simp
  · rw [howner, hname]
    simp

/-- The dump of a repository that is told by its full name lies right in its directory. -/
theorem plain_dumpName {s : String} {id : PackageId} (h : PackageId.parse s = .ok id) :
    Path.Plain (dumpName id) := by
  obtain ⟨-, -, -, howner, hname⟩ := PackageId.parse_eq_ok h
  have hlong : 6 ≤ (dumpName id).toList.length := by
    rw [toList_dumpName]
    simp
    omega
  refine ⟨?_, ?_, ?_, ?_⟩
  · rintro he
    rw [he] at hlong
    simp at hlong
  · rw [toList_dumpName]
    simp [howner, hname]
  · rintro he
    rw [he] at hlong
    simp at hlong
  · rintro he
    rw [he] at hlong
    simp at hlong

/-! ## Dumps -/

open FileTree

section
variable {t : FileTree} {dir : String}

/-- Where the directory has been made, the rest is to write one file. -/
theorem dumpReferences_of_made (h : (makeDirectories dir t).result = .ok ()) (repo : PackageId)
    (rs : List Reference) :
    (dumpReferences dir repo rs t).result =
      (ofIo (((makeDirectories dir t).state.writeFile (Path.join dir (dumpName repo))
        (.text (dumpText rs))).map fun _ => ())).map (fun _ => Path.join dir (dumpName repo)) ∧
    (dumpReferences dir repo rs t).state =
      (((makeDirectories dir t).state.writeFile (Path.join dir (dumpName repo))
        (.text (dumpText rs))).toOption.getD (makeDirectories dir t).state) := by
  rw [dumpReferences, Task.result_bind_ok _ h, Task.state_bind_ok _ h, Task.result_bind,
    Task.state_bind, write, Task.tryChange]
  cases (makeDirectories dir t).state.writeFile (Path.join dir (dumpName repo))
    (.text (dumpText rs)) <;> exact ⟨rfl, rfl⟩

theorem dumpReferences_eq_ok {repo : PackageId} {rs : List Reference} {p : String}
    (h : (dumpReferences dir repo rs t).result = .ok p) :
    p = Path.join dir (dumpName repo) ∧ (makeDirectories dir t).result = .ok () ∧
      (makeDirectories dir t).state.writeFile (Path.join dir (dumpName repo))
        (.text (dumpText rs)) = .ok (dumpReferences dir repo rs t).state := by
  obtain ⟨⟨⟩, hmade, -⟩ := Task.bind_eq_ok _ h
  obtain ⟨hresult, hstate⟩ := dumpReferences_of_made hmade repo rs
  rw [h] at hresult
  rw [hstate]
  cases hwrite : (makeDirectories dir t).state.writeFile (Path.join dir (dumpName repo))
      (.text (dumpText rs)) with
  | error cause =>
    rw [hwrite] at hresult
    cases hresult
  | ok t' =>
    rw [hwrite] at hresult
    exact ⟨Except.ok.inj hresult, hmade, rfl⟩

/-- A dump changes nothing about how the next one ends. What it has written stays unless the next
one is of the same name, and that is so for confusable ids alone. -/
theorem dumpReferences_apart {s s' : String} {a b : PackageId} (ha : PackageId.parse s = .ok a)
    (hb : PackageId.parse s' = .ok b) (hne : a ≠ b) (ra rb : List Reference) {p : String}
    (h : (dumpReferences dir a ra t).result = .ok p) :
    (dumpReferences dir b rb (dumpReferences dir a ra t).state).result =
      (dumpReferences dir b rb t).result ∧
    (¬a.Confusable b →
      (dumpReferences dir b rb (dumpReferences dir a ra t).state).state.readText p =
        .ok (dumpText ra)) ∧
    ∀ q, (dumpReferences dir b rb (dumpReferences dir a ra t).state).result = .ok q →
      (dumpReferences dir b rb (dumpReferences dir a ra t).state).state.readText q =
        .ok (dumpText rb) ∧ (p = q ↔ a.Confusable b) := by
  obtain ⟨rfl, hmade, hwrite⟩ := dumpReferences_eq_ok h
  obtain ⟨at_, hopens, -, hfree, hput⟩ := opens_of_writeFile (plain_dumpName ha) hwrite
  have htext := readText_of_writeFile (plain_dumpName ha) hwrite
  generalize (dumpReferences dir a ra t).state = t₁ at hput htext ⊢
  have hopens₁ : t₁.Opens dir at_ := hput ▸ hopens.put hfree _
  obtain ⟨hmade₁, hsame⟩ := hopens₁.makeDirectories
  refine ⟨?_, fun hapart => ?_, fun q hq => ?_⟩
  · rw [(dumpReferences_of_made hmade b rb).1, (dumpReferences_of_made hmade₁ b rb).1, hsame, hput,
      hopens.writeFile_put (plain_dumpName hb) hfree]
  · have hname : dumpName a ≠ dumpName b := fun he => (dumpName_eq_iff.mp he).elim hne hapart
    rw [(dumpReferences_of_made hmade₁ b rb).2, hsame]
    cases hwrite₁ : t₁.writeFile (Path.join dir (dumpName b)) (.text (dumpText rb)) with
    | error cause => exact htext
    | ok t₂ =>
      exact readText_of_writeFile_of_ne (plain_dumpName ha) (plain_dumpName hb) hname htext hwrite₁
  · obtain ⟨rfl, -, hwrite₁⟩ := dumpReferences_eq_ok hq
    refine ⟨readText_of_writeFile (plain_dumpName hb) hwrite₁, ?_⟩
    rw [← or_iff_right (b := a.Confusable b) hne, ← dumpName_eq_iff]
    exact ⟨Path.join_injective (plain_dumpName ha).relative (plain_dumpName hb).relative,
      congrArg (Path.join dir)⟩

end

def desk : FileTree := ⟨[(["w"], .directory)], "/w"⟩

def helperUse : Reference := ⟨"1", "helper", ⟨⟨3, 1⟩, ⟨3, 7⟩⟩, "u", some "1.0.0",
  ⟨"me/app", "Main.elm", none⟩, ⟨"lib/util", "Util.elm", none⟩⟩

theorem dumpReferences_apart_neighbours :
    let t₁ := (dumpReferences "dumps" ⟨"me", "app"⟩ [helperUse] desk).state
    let t₂ := (dumpReferences "dumps" ⟨"me", "app_2"⟩ [] t₁).state
    t₂.readText "dumps/me_app.json" = .ok (dumpText [helperUse]) ∧
      t₂.readText "dumps/me_app_2.json" = .ok (dumpText []) := by
  have hfirst : (dumpReferences "dumps" ⟨"me", "app"⟩ [helperUse] desk).result =
      .ok "dumps/me_app.json" := by decide +kernel
  have hsecond : (dumpReferences "dumps" ⟨"me", "app_2"⟩ [] desk).result =
      .ok "dumps/me_app_2.json" := by decide +kernel
  have hapart : ¬PackageId.Confusable ⟨"me", "app"⟩ ⟨"me", "app_2"⟩ :=
    fun h => absurd h.underscores.1 (by decide)
  have happ : PackageId.parse "me/app" = .ok ⟨"me", "app"⟩ := rfl
  have happ₂ : PackageId.parse "me/app_2" = .ok ⟨"me", "app_2"⟩ := rfl
  obtain ⟨hresult, hkept, hboth⟩ :=
    dumpReferences_apart happ happ₂ (by decide) [helperUse] [] hfirst
  exact ⟨hkept hapart, (hboth _ (hresult.trans hsecond)).1⟩

/-- The dump of the first repository is lost. -/
theorem dumpReferences_overwritten :
    let t₁ := (dumpReferences "dumps" ⟨"a_b", "c"⟩ [helperUse] desk).state
    let t₂ := (dumpReferences "dumps" ⟨"a", "b_c"⟩ [] t₁).state
    PackageId.parse "a_b/c" = .ok ⟨"a_b", "c"⟩ ∧ PackageId.parse "a/b_c" = .ok ⟨"a", "b_c"⟩ ∧
      (dumpReferences "dumps" ⟨"a_b", "c"⟩ [helperUse] desk).result = .ok "dumps/a_b_c.json" ∧
      t₁.readText "dumps/a_b_c.json" = .ok (dumpText [helperUse]) ∧
      t₂.readText "dumps/a_b_c.json" = .ok "[]" ∧ dumpText [helperUse] ≠ "[]" := by
  refine ⟨rfl, rfl, by decide +kernel, by decide +kernel, by decide +kernel, by decide +kernel⟩

end UsageGraph
