import UsageGraph.Package.Id
import UsageGraph.Proofs.Path.Parts

/-! # Reading package ids

* `PackageId.parse_eq_ok`: a text that is read as an id is its two parts around its only slash.
* `PackageId.fullName_injective`: an id whose owner has no slash is known by its text.
* `PackageId.Ordinary`: an id whose parts are names and not dots.
* `PackageId.Accepted`: the texts that are read as ids.
* `PackageId.append_slash_injective`: such a text can be told from what follows it after a slash.
-/

namespace UsageGraph
open Text
set_option autoImplicit false

namespace PackageId
variable {s : String} {id : PackageId}

/-- Both parts of the id are names of directories. -/
def Ordinary (id : PackageId) : Prop := Path.Plain id.owner ∧ Path.Plain id.name

instance (id : PackageId) : Decidable id.Ordinary := inferInstanceAs (Decidable (_ ∧ _))

/-! ## Reading -/

theorem parse_eq_ok (h : parse s = .ok id) :
    s.toList = id.owner.toList ++ '/' :: id.name.toList ∧ id.owner ≠ "" ∧ id.name ≠ "" ∧
      '/' ∉ id.owner.toList ∧ '/' ∉ id.name.toList := by
  simp only [parse, parse?] at h
  cases hs : splitOnce '/' s.toList with
  | none => simp [hs] at h
  | some p =>
    obtain ⟨owner, name⟩ := p
    obtain ⟨htext, howner⟩ := splitOnce_eq_some hs
    simp only [hs] at h
    by_cases hbad : owner = [] ∨ name = [] ∨ '/' ∈ name
    · simp [hbad] at h
    · rw [if_neg hbad] at h
      rw [not_or, not_or] at hbad
      obtain ⟨hne, hne', hname⟩ := hbad
      cases h
      simp only [String.toList_ofList]
      refine ⟨htext, fun he => hne ?_, fun he => hne' ?_, howner, hname⟩
      · rw [← String.toList_ofList (l := owner), he, String.toList_empty]
      · rw [← String.toList_ofList (l := name), he, String.toList_empty]

/-- The owner is what stands before the first slash. -/
theorem fullName_injective {id id' : PackageId} (h : '/' ∉ id.owner.toList)
    (h' : '/' ∉ id'.owner.toList) (hname : id.fullName = id'.fullName) : id = id' := by
  have hchars : id.owner.toList ++ '/' :: id.name.toList =
      id'.owner.toList ++ '/' :: id'.name.toList := by
    have hlist := congrArg String.toList hname
    simpa [fullName] using hlist
  obtain ⟨howner, hname⟩ := append_cons_injective h h' hchars
  cases id
  cases id'
  cases String.toList_injective howner
  cases String.toList_injective hname
  rfl

/-- The text is read as an id. -/
def Accepted (s : String) : Prop := (parse s).isOk = true

instance (s : String) : Decidable (Accepted s) := inferInstanceAs (Decidable (_ = true))

theorem Accepted.exists (h : Accepted s) : ∃ id, parse s = .ok id := by
  cases hp : parse s with
  | ok id => exact ⟨id, rfl⟩
  | error f =>
    rw [Accepted, hp] at h
    cases h

/-- An id has exactly one slash, so what follows it is what stands behind the second slash. -/
theorem append_slash_injective {s' rest rest' : String} (hs : Accepted s) (hs' : Accepted s')
    (h : s ++ "/" ++ rest = s' ++ "/" ++ rest') : s = s' ∧ rest = rest' := by
  obtain ⟨id, hid⟩ := hs.exists
  obtain ⟨id', hid'⟩ := hs'.exists
  obtain ⟨htext, -, -, howner, hname⟩ := parse_eq_ok hid
  obtain ⟨htext', -, -, howner', hname'⟩ := parse_eq_ok hid'
  have hchars : id.owner.toList ++ '/' :: (id.name.toList ++ '/' :: rest.toList) =
      id'.owner.toList ++ '/' :: (id'.name.toList ++ '/' :: rest'.toList) := by
    have hlist := congrArg String.toList h
    rw [String.toList_append, String.toList_append, String.toList_append, String.toList_append,
      htext, htext'] at hlist
    simpa using hlist
  obtain ⟨hsame, hrest⟩ := append_cons_injective howner howner' hchars
  obtain ⟨hsame', hrest⟩ := append_cons_injective hname hname' hrest
  refine ⟨String.toList_injective ?_, String.toList_injective hrest⟩
  rw [htext, htext', hsame, hsame']

end PackageId
end UsageGraph
