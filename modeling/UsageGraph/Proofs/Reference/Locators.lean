import UsageGraph.Proofs.Package.Ids
import UsageGraph.Proofs.Reference.Assembly
import UsageGraph.Proofs.Version.Numbers

/-! # Locators

The text behind a locator puts names and numbers together with bars, colons and hyphens between
them, and an operator at its end may hold any of these.

* `Region.render_injective`: a region is known by its numbers.
* `Reference.SameUse`: what two references have in common if they stand for one use.
* `Assembly.locators_faithful`: such references have one locator, and others have different texts
  behind their locators.
-/

namespace UsageGraph
open Text
set_option autoImplicit false

/-! ## Regions -/

namespace Position

theorem toList_render (p : Position) :
    p.render.toList = Nat.toDigits 10 p.line ++ ':' :: Nat.toDigits 10 p.column := by
  rw [render, String.toList_append, String.toList_append, Nat.toString_eq_repr,
    Nat.toString_eq_repr, Nat.toList_repr, Nat.toList_repr, List.append_assoc]
  rfl

theorem notMem_render {c : Char} (hdigit : c.isDigit = false) (hcolon : c ≠ ':') (p : Position) :
    c ∉ p.render.toList := by
  rw [toList_render, List.mem_append, List.mem_cons]
  rintro (hline | rfl | hcolumn)
  · exact notMem_toDigits hdigit p.line hline
  · exact hcolon rfl
  · exact notMem_toDigits hdigit p.column hcolumn

theorem render_injective {p q : Position} (h : p.render = q.render) : p = q := by
  have hchars := congrArg String.toList h
  rw [toList_render, toList_render] at hchars
  obtain ⟨hline, hcolumn⟩ := append_cons_injective (notMem_toDigits (by decide) _)
    (notMem_toDigits (by decide) _) hchars
  cases p
  cases q
  cases toDigits_injective hline
  cases toDigits_injective hcolumn
  rfl

end Position

namespace Region

theorem toList_render (r : Region) : (r.start.render ++ "-" ++ r.stop.render).toList =
    r.start.render.toList ++ '-' :: r.stop.render.toList := by
  rw [String.toList_append, String.toList_append, List.append_assoc]
  rfl

theorem notMem_render {c : Char} (hdigit : c.isDigit = false) (hcolon : c ≠ ':')
    (hhyphen : c ≠ '-') (r : Region) : c ∉ (r.start.render ++ "-" ++ r.stop.render).toList := by
  rw [toList_render, List.mem_append, List.mem_cons]
  rintro (hstart | rfl | hstop)
  · exact r.start.notMem_render hdigit hcolon hstart
  · exact hhyphen rfl
  · exact r.stop.notMem_render hdigit hcolon hstop

theorem render_injective {r s : Region}
    (h : r.start.render ++ "-" ++ r.stop.render = s.start.render ++ "-" ++ s.stop.render) :
    r = s := by
  have hchars := congrArg String.toList h
  rw [toList_render, toList_render] at hchars
  obtain ⟨hstart, hstop⟩ := append_cons_injective
    (r.start.notMem_render (by decide) (by decide))
    (s.start.notMem_render (by decide) (by decide)) hchars
  cases r
  cases s
  cases Position.render_injective (String.toList_injective hstart)
  cases Position.render_injective (String.toList_injective hstop)
  rfl

end Region

/-! ## References -/

namespace Reference

/-- One use of one symbol: the same place refers to the same target. -/
structure SameUse (r s : Reference) : Prop where
  repo : r.referer.repo = s.referer.repo
  file : r.referer.file = s.referer.file
  region : r.region = s.region
  package : r.referred.repo = s.referred.repo
  referredFile : r.referred.file = s.referred.file
  symbol : r.symbol = s.symbol

/-- No name but that of the symbol has a bar in it. -/
def Unbarred (r : Reference) : Prop :=
  ∀ name ∈ [r.referer.repo, r.referer.file, r.referred.repo, r.referred.file], '|' ∉ name.toList

instance (r : Reference) : Decidable r.Unbarred :=
  inferInstanceAs (Decidable (∀ name ∈ _, _))

/-- What stands in front of the symbol in the text behind a locator. -/
def front (r : Reference) : List String :=
  [r.referer.repo, r.referer.file, r.region.start.render ++ "-" ++ r.region.stop.render,
    r.referred.repo, r.referred.file]

variable {r s : Reference}

theorem Unbarred.notMem_front (h : r.Unbarred) : ∀ name ∈ r.front, '|' ∉ name.toList := by
  have hregion := r.region.notMem_render (c := '|') (by decide) (by decide) (by decide)
  simp only [Unbarred, List.forall_mem_cons] at h
  simp only [front, List.forall_mem_cons]
  exact ⟨h.1, h.2.1, hregion, h.2.2⟩

theorem sameUse_iff : r.SameUse s ↔ r.front = s.front ∧ r.symbol = s.symbol := by
  simp only [front, List.cons.injEq, and_true]
  constructor
  · intro h
    refine ⟨⟨h.repo, h.file, ?_, h.package, h.referredFile⟩, h.symbol⟩
    rw [h.region]
  · rintro ⟨⟨hrepo, hfile, hregion, hpackage, hreferred⟩, hsymbol⟩
    exact ⟨hrepo, hfile, Region.render_injective hregion, hpackage, hreferred, hsymbol⟩

end Reference

namespace Assembly
variable {a b : Assembly} {u v : ExternalUse} {r s : Reference}

/-! ## The references of a use -/

/-- The reference is one of the use, in some file that its module was found in. -/
def Refers (a : Assembly) (u : ExternalUse) (r : Reference) : Prop :=
  ∃ m referred referer, r = a.reference u m referred referer

theorem refers_of_assembleOne {t : FileTree} {k : Known}
    (h : (a.assembleOne t u k).result = .ok r) : a.Refers u r := by
  obtain ⟨m, -, h⟩ := Task.bind_eq_ok _ h
  obtain ⟨referred, -, h⟩ := Task.bind_eq_ok _ h
  obtain ⟨referer, -, h⟩ := Task.bind_eq_ok _ h
  exact ⟨m, referred, referer, (Except.ok.inj h).symm⟩

theorem refers_of_mem {t : FileTree} {us : List ExternalUse} {k : Known} {rs : List Reference}
    (h : (a.assemble t us k).result = .ok rs) (hr : r ∈ rs) : ∃ u ∈ us, a.Refers u r := by
  induction us generalizing k rs with
  | nil =>
    cases h
    cases hr
  | cons u us ih =>
    obtain ⟨later, hlater⟩ := a.exists_assemble us (a.assembleOne t u k).state
    rw [a.result_assemble_cons u hlater] at h
    cases h
    rcases List.mem_append.mp hr with hr | hr
    · cases hone : (a.assembleOne t u k).result with
      | error f =>
        rw [hone] at hr
        cases hr
      | ok r' =>
        rw [hone] at hr
        rw [List.mem_singleton.mp hr]
        exact ⟨u, List.mem_cons_self, refers_of_assembleOne hone⟩
    · obtain ⟨w, hw, href⟩ := ih hlater hr
      exact ⟨w, List.mem_cons_of_mem u hw, href⟩

/-! ## Locators -/

theorem Refers.locatorKey_eq (h : a.Refers u r) :
    a.locatorKey u r.referred.file = join "|" (r.front ++ [r.symbol]) := by
  obtain ⟨m, referred, referer, rfl⟩ := h
  rfl

theorem Refers.id_eq (h : a.Refers u r) : r.id = a.locator u r.referred.file := by
  obtain ⟨m, referred, referer, rfl⟩ := h
  rfl

theorem Refers.names (h : a.Refers u r) :
    r.referer.repo = a.repo.fullName ∧ r.referred.repo = u.package.fullName := by
  obtain ⟨m, referred, referer, rfl⟩ := h
  exact ⟨rfl, rfl⟩

/-- The commit, the host and the version of a reference are not in its locator. -/
theorem id_eq_of_sameUse (hr : a.Refers u r) (hs : b.Refers v s) (h : r.SameUse s) :
    r.id = s.id := by
  obtain ⟨hfront, hsymbol⟩ := Reference.sameUse_iff.mp h
  rw [hr.id_eq, hs.id_eq, locator, locator, hr.locatorKey_eq, hs.locatorKey_eq, hfront, hsymbol]

theorem sameUse_of_locatorKey (hr : a.Refers u r) (hs : b.Refers v s) (hbar : r.Unbarred)
    (hbar' : s.Unbarred) (h : a.locatorKey u r.referred.file = b.locatorKey v s.referred.file) :
    r.SameUse s := by
  rw [hr.locatorKey_eq, hs.locatorKey_eq] at h
  exact Reference.sameUse_iff.mpr
    (join_concat_injective (c := '|') rfl hbar.notMem_front hbar'.notMem_front h)

/-- References of one use have one locator, whatever the commits, the hosts and the versions are.
The texts whose digests are the locators are different for different uses, as long as no name but
that of the symbol has a bar in it. -/
theorem locators_faithful {t t' : FileTree} {us vs : List ExternalUse} {k k' : Known}
    {rs ss : List Reference} (hrs : (a.assemble t us k).result = .ok rs)
    (hss : (b.assemble t' vs k').result = .ok ss) : ∀ r ∈ rs, ∀ s ∈ ss,
      (r.SameUse s → r.id = s.id) ∧
      ∃ u ∈ us, ∃ v ∈ vs, a.Refers u r ∧ b.Refers v s ∧
        r.id = Digest.hex16 (Digest.xxh3 (encode (a.locatorKey u r.referred.file))) ∧
        s.id = Digest.hex16 (Digest.xxh3 (encode (b.locatorKey v s.referred.file))) ∧
        (r.Unbarred → s.Unbarred →
          a.locatorKey u r.referred.file = b.locatorKey v s.referred.file → r.SameUse s) ∧
        (r.SameUse s →
          (∀ id ∈ [a.repo, b.repo, u.package, v.package], '/' ∉ id.owner.toList) →
            a.repo = b.repo ∧ u.package = v.package) := by
  intro r hr s hs
  obtain ⟨u, hu, href⟩ := refers_of_mem hrs hr
  obtain ⟨v, hv, href'⟩ := refers_of_mem hss hs
  refine ⟨id_eq_of_sameUse href href', u, hu, v, hv, href, href', href.id_eq, href'.id_eq,
    sameUse_of_locatorKey href href', fun hsame howners => ?_⟩
  obtain ⟨hrepo, hpackage⟩ := href.names
  obtain ⟨hrepo', hpackage'⟩ := href'.names
  simp only [List.forall_mem_cons] at howners
  obtain ⟨ha, hb, hu, hv, -⟩ := howners
  refine ⟨PackageId.fullName_injective ha hb ?_, PackageId.fullName_injective hu hv ?_⟩
  · rw [← hrepo, ← hrepo', hsame.repo]
  · rw [← hpackage, ← hpackage', hsame.package]

def useOfOperator (symbol : String) : ExternalUse :=
  { useOfUtil "src/Main.elm" with symbol := symbol }

/-- The same checkout at another commit, on another host. -/
def laterAssembly : Assembly := .of "c2" "https://git.example.org/" twoModulesAssembly.checkout

def referenceOfOperator (a : Assembly) (symbol : String) : Reference :=
  a.reference (useOfOperator symbol) ⟨"/w", "src/Util.elm"⟩ (some "Util") (some "Main")

/-- An operator keeps its locator from one commit to another, and another operator with bars has
another text behind its locator. -/
theorem locators_faithful_operators :
    (referenceOfOperator twoModulesAssembly "||").id = (referenceOfOperator laterAssembly "||").id ∧
      twoModulesAssembly.locatorKey (useOfOperator "||") "src/Util.elm" ≠
        laterAssembly.locatorKey (useOfOperator "|>") "src/Util.elm" := by
  have hfirst : (twoModulesAssembly.assemble twoModules [useOfOperator "||"] .fresh).result =
      .ok [referenceOfOperator twoModulesAssembly "||"] := by decide +kernel
  have hsame : (laterAssembly.assemble twoModules [useOfOperator "||"] .fresh).result =
      .ok [referenceOfOperator laterAssembly "||"] := by decide +kernel
  have hother : (laterAssembly.assemble twoModules [useOfOperator "|>"] .fresh).result =
      .ok [referenceOfOperator laterAssembly "|>"] := by decide +kernel
  have hkept := locators_faithful hfirst hsame _ (List.mem_singleton_self _) _
    (List.mem_singleton_self _)
  have htold := locators_faithful hfirst hother _ (List.mem_singleton_self _) _
    (List.mem_singleton_self _)
  refine ⟨hkept.1 ⟨rfl, rfl, rfl, rfl, rfl, rfl⟩, fun hkey => ?_⟩
  obtain ⟨-, u, hu, v, hv, -, -, -, -, hfaithful, -⟩ := htold
  rw [List.mem_singleton.mp hu, List.mem_singleton.mp hv] at hfaithful
  have huse := hfaithful (by decide +kernel) (by decide +kernel) hkey
  exact absurd huse.symbol (by decide)

end Assembly
end UsageGraph
