import Mathlib.Data.List.Permutation
import Mathlib.Data.List.TakeDrop
import UsageGraph.Package.Manifest
import UsageGraph.Proofs.Lists

/-! # Declared dependencies

* `Document.mapM_textMember?_eq_some`: texts are read off members that are texts, and nothing else.
* `Document.filter_membersOf`: a field is the one member of its name.
* `Dependencies.Ranges`, `Dependencies.Half`: what the two forms of a table are made of.
* `reads_of_dependencyTable?`: what is read off either form.
* `Manifest.Declares`: the table of dependencies that a manifest declares.
* `Manifest.parse_dependencies`: which of the declared dependencies a manifest has, and which
  tables are not accepted.
-/

namespace UsageGraph
open Text
set_option autoImplicit false

/-- The members of a record, in their order. A name that has no value is written `none`. -/
abbrev Members := List (Option String × Document)

namespace Dependencies

/-! ## The entries of a table -/

/-- Of members with one name the last counts. -/
def last? (members : Members) (key : String) : Option Document :=
  members.reverse.lookup (some key)

/-- The text of a member. -/
def range? (members : Members) (key : String) : Option String :=
  (last? members key).bind Document.text?

/-- The text of a member of a member that is a record. -/
def rangeIn? (members : Members) (half key : String) : Option String :=
  match last? members half with
  | some (.record inner) => range? inner key
  | _ => none

/-- Direct and indirect dependencies apart; the direct ones come first. -/
def splitRange? (members : Members) (key : String) : Option String :=
  (rangeIn? members "direct" key).or (rangeIn? members "indirect" key)

/-- All that is declared, in either form. -/
def declared? (members : Members) (key : String) : Option String :=
  (range? members key).or (splitRange? members key)

/-! ## The two forms -/

/-- Every member is a text. -/
def Ranges (members : Members) : Prop :=
  ∃ pairs : List (String × String), members = pairs.map fun p => (some p.1, .ofText p.2)

def named (members : Members) (key : String) : Members := members.filter (·.1 = some key)

/-- One half of the dependencies is left out, or is there once, as a record of texts. -/
def Half (members : Members) (half : String) : Prop :=
  named members half = [] ∨
    ∃ inner, named members half = [(some half, .record inner)] ∧ Ranges inner

/-- There is nothing besides the two halves. -/
def NoOther (members : Members) : Prop :=
  ∀ p ∈ members, p.1 = some "direct" ∨ p.1 = some "indirect"

instance (members : Members) : Decidable (NoOther members) :=
  inferInstanceAs (Decidable (∀ p ∈ members, p.1 = some "direct" ∨ p.1 = some "indirect"))

variable {members : Members} {key half : String} {d : Document}

theorem last?_eq (members : Members) (key : String) :
    last? members key = (named members key).getLast?.map Prod.snd := by
  have hlookup : ∀ ps : Members,
      ps.lookup (some key) = (ps.filter (·.1 = some key)).head?.map Prod.snd := by
    intro ps
    induction ps with
    | nil => rfl
    | cons p ps ih =>
      obtain ⟨k, d⟩ := p
      by_cases hk : k = some key
      · simp [hk]
      · simp [List.lookup_cons, hk, beq_false_of_ne (Ne.symm hk), ih]
  rw [last?, hlookup, List.filter_reverse, List.head?_reverse, named]

theorem mem_of_last? (h : last? members key = some d) : (some key, d) ∈ members := by
  rw [last?_eq, Option.map_eq_some_iff] at h
  obtain ⟨⟨k, d'⟩, hlast, rfl⟩ := h
  obtain ⟨hmem, hk⟩ := List.mem_filter.mp (List.mem_of_getLast? hlast)
  exact of_decide_eq_true hk ▸ hmem

theorem last?_entries (pairs : List (String × String)) (key : String) :
    last? (pairs.map fun p => (some p.1, .ofText p.2)) key =
      (pairs.reverse.lookup key).map Document.ofText := by
  rw [last?, ← List.map_reverse]
  induction pairs.reverse with
  | nil => rfl
  | cons p ps ih =>
    rw [List.map_cons, List.lookup_cons, ih, List.lookup_cons, Option.some_beq_some]
    cases key == p.1 <;> rfl

theorem range?_entries (pairs : List (String × String)) (key : String) :
    range? (pairs.map fun p => (some p.1, .ofText p.2)) key = pairs.reverse.lookup key := by
  rw [range?, last?_entries]
  cases pairs.reverse.lookup key <;> rfl

/-! ## Texts have no halves, and halves are no texts -/

theorem rangeIn?_of_ranges (h : Ranges members) (half key : String) :
    rangeIn? members half key = none := by
  obtain ⟨pairs, rfl⟩ := h
  rw [rangeIn?, last?_entries]
  cases pairs.reverse.lookup half <;> rfl

theorem range?_half (h : Half members half) : range? members half = none := by
  rw [range?, last?_eq]
  rcases h with hnone | ⟨inner, hinner, -⟩
  · rw [hnone]
    rfl
  · rw [hinner]
    rfl

theorem range?_of_noOther (hother : NoOther members) (hdirect : Half members "direct")
    (hindirect : Half members "indirect") (key : String) : range? members key = none := by
  cases hlast : last? members key with
  | none => rw [range?, hlast, Option.bind_none]
  | some d =>
    rcases hother _ (mem_of_last? hlast) with hkey | hkey
    · rw [Option.some.inj hkey, range?_half hdirect]
    · rw [Option.some.inj hkey, range?_half hindirect]

end Dependencies

open Dependencies

/-! ## Reading a table -/

namespace Document
variable {members : Members} {t : Table String}

theorem textMember?_eq_some {member : Option String × Document} {p : String × String} :
    textMember? member = some p ↔ member = (some p.1, .ofText p.2) := by
  obtain ⟨key, d⟩ := member
  obtain ⟨k, s⟩ := p
  cases key with
  | none => simp [textMember?]
  | some key =>
    cases d with
    | text s' => cases s' <;> simp [textMember?, text?, ofText]
    | _ => simp [textMember?, text?, ofText]

theorem mapM_textMember?_eq_some {pairs : List (String × String)} :
    members.mapM textMember? = some pairs ↔
      members = pairs.map fun p => (some p.1, .ofText p.2) := by
  rw [mapM_eq_some]
  simp only [textMember?_eq_some]
  rw [← List.forall₂_map_right_iff (f := fun p : String × String => (some p.1, ofText p.2)),
    List.forall₂_eq_eq_eq]

theorem textTable?_record_eq_some (h : (record members).textTable? = some t) :
    Ranges members ∧ ∀ key, t.get? key = range? members key := by
  rw [textTable?, Option.map_eq_some_iff] at h
  obtain ⟨pairs, hpairs, rfl⟩ := h
  have hmembers := mapM_textMember?_eq_some.mp hpairs
  refine ⟨⟨pairs, hmembers⟩, fun key => ?_⟩
  rw [hmembers, range?_entries, Table.get?_ofList]

theorem not_ranges_of_textTable? (h : (record members).textTable? = none) : ¬Ranges members := by
  rintro ⟨pairs, hmembers⟩
  rw [textTable?, mapM_textMember?_eq_some.mpr hmembers] at h
  cases h

theorem membersOf_cons_eq_some {names : List String} {member : Option String × Document}
    {found : List (String × Document)} (h : membersOf names (member :: members) = some found) :
    ∃ k d rest, member = (some k, d) ∧ membersOf names members = some rest ∧
      ((k ∈ names ∧ rest.lookup k = none ∧ found = (k, d) :: rest) ∨
        (k ∉ names ∧ found = rest)) := by
  obtain ⟨key, d⟩ := member
  cases key with
  | none => cases h
  | some k =>
    rw [membersOf] at h
    cases hrest : membersOf names members with
    | none =>
      rw [hrest] at h
      cases h
    | some rest =>
      simp only [hrest] at h
      refine ⟨k, d, rest, rfl, rfl, ?_⟩
      split at h
      · next hk =>
        split at h
        · cases h
        · next hnew =>
          refine .inl ⟨hk, List.lookup_eq_none_iff.mpr fun p hp => ?_, (Option.some.inj h).symm⟩
          refine bne_iff_ne.mpr fun he => hnew (List.any_eq_true.mpr ⟨p, hp, ?_⟩)
          exact beq_iff_eq.mpr he.symm
      · next hk => exact .inr ⟨hk, (Option.some.inj h).symm⟩

/-- What is found under a name is the only member of that name. -/
theorem filter_membersOf {names : List String} {found : List (String × Document)} {key : String}
    (h : membersOf names members = some found) (hkey : key ∈ names) :
    named members key = ((found.lookup key).map fun d => (some key, d)).toList := by
  induction members generalizing found with
  | nil =>
    cases h
    rfl
  | cons member members ih =>
    obtain ⟨k, d, rest, rfl, hrest, hfound⟩ := membersOf_cons_eq_some h
    rw [named, List.filter_cons, ← named, ih hrest]
    by_cases hk : k = key
    · subst hk
      rcases hfound with ⟨-, hnone, rfl⟩ | ⟨hnot, -⟩
      · simp [hnone]
      · exact absurd hkey hnot
    · rw [if_neg (by simpa using hk)]
      rcases hfound with ⟨-, -, rfl⟩ | ⟨-, rfl⟩
      · rw [List.lookup_cons, beq_false_of_ne (Ne.symm hk)]
      · rfl

theorem half_of_fields {f : Fields} {half : String}
    (h : (record members).fields? ["direct", "indirect"] = some f)
    (hhalf : half ∈ ["direct", "indirect"]) (ht : f.defaulted half textTable? .empty = some t) :
    Half members half ∧ ∀ key, t.get? key = rangeIn? members half key := by
  obtain ⟨found, hfound, rfl⟩ := Option.map_eq_some_iff.mp h
  have hnamed := filter_membersOf hfound hhalf
  have hlast := last?_eq members half
  rw [Fields.defaulted, Fields.get?] at ht
  cases hlookup : found.lookup half with
  | none =>
    rw [hlookup] at hnamed ht
    cases ht
    rw [hnamed] at hlast
    refine ⟨.inl hnamed, fun key => ?_⟩
    rw [rangeIn?, hlast, Table.get?_empty]
    rfl
  | some d =>
    rw [hlookup] at hnamed ht
    rw [hnamed] at hlast
    cases d with
    | record inner =>
      obtain ⟨hranges, hget⟩ := textTable?_record_eq_some ht
      refine ⟨.inr ⟨inner, hnamed, hranges⟩, fun key => ?_⟩
      rw [rangeIn?, hlast, hget]
      rfl
    | _ => cases ht

end Document

/-- A table of texts is read as it stands. Anything else is read as two halves. -/
theorem reads_of_dependencyTable? {members : Members} {t : Table String}
    (h : dependencyTable? (.record members) = some t) :
    (Ranges members ∧ ∀ key, t.get? key = range? members key) ∨
      (¬Ranges members ∧ Half members "direct" ∧ Half members "indirect" ∧
        ∀ key, t.get? key = splitRange? members key) := by
  rw [dependencyTable?, Option.ite_none_right_eq_some] at h
  obtain ⟨-, h⟩ := h
  cases hflat : (Document.record members).textTable? with
  | some t' =>
    rw [hflat] at h
    cases h
    exact .inl (Document.textTable?_record_eq_some hflat)
  | none =>
    rw [hflat] at h
    change splitTable? (.record members) = some t at h
    simp only [splitTable?, Option.bind_eq_bind, Option.bind_eq_some_iff, Option.pure_def,
      Option.some_inj] at h
    obtain ⟨f, hf, direct, hdirect, indirect, hindirect, rfl⟩ := h
    obtain ⟨hd, hgetd⟩ := Document.half_of_fields hf (by decide) hdirect
    obtain ⟨hi, hgeti⟩ := Document.half_of_fields hf (by decide) hindirect
    refine .inr ⟨Document.not_ranges_of_textTable? hflat, hd, hi, fun key => ?_⟩
    rw [Table.get?_override, hgetd, hgeti, splitRange?]

/-! ## Reading a manifest -/

namespace Manifest

/-- A manifest is a record of its fields, or the list of them, and one of them is a record of
dependencies. -/
inductive Declares : Document → Members → Prop
  | named {fields : Members} {members : Members} :
      (some "dependencies", .record members) ∈ fields → Declares (.record fields) members
  | placed {items : List Document} {members : Members} :
      items[2]? = some (.record members) → Declares (.list items) members

variable {content path : String} {d : Document} {members : Members}

def fieldNames : List String := ["version", "source-directories", "dependencies", "elm-version"]

theorem get?_of_declares (h : Declares d members) {f : Fields} (hf : d.fields? fieldNames = some f) :
    f.get? "dependencies" = some (.record members) := by
  cases h with
  | named hmem =>
    obtain ⟨found, hfound, rfl⟩ := Option.map_eq_some_iff.mp hf
    have hfilter : _ ∈ Dependencies.named _ "dependencies" :=
      List.mem_filter.mpr ⟨hmem, decide_eq_true rfl⟩
    rw [Document.filter_membersOf hfound (by decide)] at hfilter
    simpa [Fields.get?] using hfilter
  | @placed items _ hitem =>
    obtain ⟨a, b, rest, rfl⟩ : ∃ a b rest, items = a :: b :: .record members :: rest := by
      match items, hitem with
      | a :: b :: c :: rest, hitem => exact ⟨a, b, rest, by rw [Option.some.inj hitem]⟩
    obtain ⟨-, hvalues⟩ := Option.ite_none_right_eq_some.mp hf
    cases hvalues
    rfl

theorem dependencyTable?_of_parse {m : Manifest} (hread : Document.parse? content = some d)
    (htable : Declares d members) (hm : parse content path = .ok m) :
    dependencyTable? (.record members) = some m.dependencies := by
  rw [parse, hread, Option.bind_some] at hm
  cases hdoc : ofDocument? path d with
  | none =>
    rw [hdoc] at hm
    cases hm
  | some m' =>
    rw [hdoc] at hm
    cases hm
    simp only [ofDocument?, Option.bind_eq_bind, Option.bind_eq_some_iff, Option.pure_def,
      Option.some_inj] at hdoc
    obtain ⟨f, hf, -, -, -, -, dependencies, hdependencies, -, -, rfl⟩ := hdoc
    rw [Fields.optional, get?_of_declares htable hf] at hdependencies
    obtain ⟨t, ht, rfl⟩ := Option.map_eq_some_iff.mp hdependencies
    exact ht

/-- A manifest whose dependencies are all texts has each of them. Otherwise it has those of the two
halves, and is not accepted unless both are records of texts. Where nothing stands besides the
halves, nothing that is declared is left out. -/
theorem parse_dependencies (path : String) (hread : Document.parse? content = some d)
    (htable : Declares d members) :
    (∀ m, parse content path = .ok m →
      (Ranges members ∧ ∀ key, m.dependencies.get? key = range? members key) ∨
        (¬Ranges members ∧ Half members "direct" ∧ Half members "indirect" ∧
          ∀ key, m.dependencies.get? key = splitRange? members key)) ∧
    (Ranges members ∨ NoOther members → ∀ m, parse content path = .ok m →
      ∀ key, m.dependencies.get? key = declared? members key) ∧
    (¬Ranges members → ¬(Half members "direct" ∧ Half members "indirect") →
      parse content path = .error (.manifestInvalid (.malformed path))) := by
  have hreads := fun m (hm : parse content path = .ok m) =>
    reads_of_dependencyTable? (dependencyTable?_of_parse hread htable hm)
  refine ⟨hreads, fun hforms m hm key => ?_, fun hranges hhalves => ?_⟩
  · rcases hreads m hm with ⟨hranges, hget⟩ | ⟨hranges, hdirect, hindirect, hget⟩
    · rw [hget, declared?, splitRange?, rangeIn?_of_ranges hranges, rangeIn?_of_ranges hranges,
        Option.none_or, Option.or_none]
    · have hnone := range?_of_noOther (hforms.resolve_left hranges) hdirect hindirect key
      rw [hget, declared?, hnone, Option.none_or]
  · cases hm : parse content path with
    | ok m =>
      rcases hreads m hm with ⟨hyes, -⟩ | ⟨-, hdirect, hindirect, -⟩
      · exact absurd hyes hranges
      · exact absurd ⟨hdirect, hindirect⟩ hhalves
    | error f =>
      rw [parse] at hm
      split at hm
      · cases hm
      · exact hm.symm

/-- One package is in both halves. -/
def splitManifest : String :=
  "\x7b\"dependencies\": \x7b\"direct\": \x7b\"a/b\": \"1\"\x7d, " ++
    "\"indirect\": \x7b\"a/b\": \"2\", \"c/d\": \"3\"\x7d\x7d\x7d"

def splitMembers : Members :=
  [(some "direct", .ofFields [("a/b", .ofText "1")]),
    (some "indirect", .ofFields [("a/b", .ofText "2"), ("c/d", .ofText "3")])]

theorem parse_dependencies_split : ∃ m, parse splitManifest "elm.json" = .ok m ∧
    m.dependencies.get? "a/b" = some "1" ∧ m.dependencies.get? "c/d" = some "3" := by
  have hread : Document.parse? splitManifest =
      some (.record [(some "dependencies", .record splitMembers)]) := by cbv
  have hok : (parse splitManifest "elm.json").isOk = true := by decide +kernel
  have hother : NoOther splitMembers := by decide +kernel
  obtain ⟨-, hdeclared, -⟩ := parse_dependencies "elm.json" hread
    (.named (List.mem_singleton_self _))
  cases hm : parse splitManifest "elm.json" with
  | error f =>
    rw [hm] at hok
    cases hok
  | ok m =>
    have hget := hdeclared (.inr hother) m hm
    exact ⟨m, rfl, (hget _).trans (by decide +kernel), (hget _).trans (by decide +kernel)⟩

def mixedManifest : String :=
  "\x7b\"dependencies\": \x7b\"elm-lang/core\": \"5.0.0 <= v < 6.0.0\", " ++
    "\"elm-lang/html\": 2\x7d\x7d"

def mixedMembers : Members :=
  [(some "elm-lang/core", .ofText "5.0.0 <= v < 6.0.0"), (some "elm-lang/html", .ofNat 2)]

/-- One of the ranges is a number, and the table is read as if it were empty. -/
theorem parse_drops :
    Document.parse? mixedManifest =
        some (.record [(some "dependencies", .record mixedMembers)]) ∧
      range? mixedMembers "elm-lang/core" = some "5.0.0 <= v < 6.0.0" ∧
      ¬Ranges mixedMembers ∧ ¬NoOther mixedMembers ∧
      (parse mixedManifest "elm-package.json").map (·.dependencies) = .ok .empty := by
  have hranges : ¬Ranges mixedMembers :=
    Document.not_ranges_of_textTable? (by decide +kernel)
  exact ⟨by cbv, by decide +kernel, hranges, by decide +kernel, by decide +kernel⟩

end Manifest
end UsageGraph
