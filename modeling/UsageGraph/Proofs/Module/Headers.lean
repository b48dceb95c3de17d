import Mathlib.Data.List.Basic
import Mathlib.Data.List.TakeWhile
import UsageGraph.Module.Header
import UsageGraph.Proofs.Text.Splitting

/-! # Module headers behind comments

The header of a module may stand behind blank lines and comments. The search for it takes the lines
one by one and knows nothing of comments, so a comment that begins on an earlier line can pass off
one of its own lines as the header.

* `Headed`: a text that starts with a header, as headers are written. `headerHere_eq_some` says that
  these and no others are read.
* `FirstLineHeader`: the first header at the start of a line. `firstHeader_eq_some` says that the
  search finds it.
* `Trivia`: a blank, a comment up to the end of its line, or a comment in braces.
* `declared_behind_trivia`: the module that is declared behind blanks and comments is the one
  in the header, unless a comment holds a header of its own. In `declared_by_comment` one does.
-/

namespace UsageGraph
open Text
set_option autoImplicit false

/-! ## Headers as they are written -/

/-- Blanks, one or more. -/
structure Gap (s : List Char) : Prop where
  ne_nil : s ≠ []
  blank : ∀ c ∈ s, isBlank c = true

/-- A letter, and behind it all that continues a name. -/
structure ModuleName (s : List Char) : Prop where
  letter : ∃ c ∈ s.head?, isAsciiLetter c = true
  continues : ∀ c ∈ s, continuesName c = true

/-- The words in front of the name. -/
inductive HeaderWords : List Char → Prop
  | plain : HeaderWords "module".toList
  | port {gap : List Char} : Gap gap → HeaderWords ("port".toList ++ (gap ++ "module".toList))
  | effect {gap : List Char} : Gap gap → HeaderWords ("effect".toList ++ (gap ++ "module".toList))

/-- The text starts with a header; what follows the name does not continue it. -/
structure Headed (text name : List Char) : Prop where
  named : ModuleName name
  layout : ∃ words gap rest, text = words ++ (gap ++ (name ++ rest)) ∧ HeaderWords words ∧
    Gap gap ∧ ∀ c ∈ rest.head?, continuesName c = false

/-! ## Reading a header -/

theorem continuesName_of_isAsciiLetter {c : Char} (h : isAsciiLetter c = true) :
    continuesName c = true := by
  simp [continuesName, isWord, isAsciiWord, h]

theorem isBlank_of_isAsciiLetter {c : Char} (h : isAsciiLetter c = true) : isBlank c = false := by
  have hrange : 97 ≤ c.toNat ∧ c.toNat ≤ 122 ∨ 65 ≤ c.toNat ∧ c.toNat ≤ 90 := by
    simp only [isAsciiLetter, Bool.or_eq_true, Bool.and_eq_true, decide_eq_true_iff] at h
    exact h
  simp [isBlank]
  omega

section
variable {s rest name : List Char}

theorem Gap.append_dropWhile {c : Char} (hc : isBlank c = true) (s : List Char) :
    ∃ gap, Gap gap ∧ c :: s = gap ++ s.dropWhile isBlank := by
  refine ⟨c :: s.takeWhile isBlank, ⟨List.cons_ne_nil _ _, ?_⟩, ?_⟩
  · intro x hx
    rcases List.mem_cons.mp hx with rfl | hx
    · exact hc
    · exact List.mem_takeWhile_imp hx
  · rw [List.cons_append, List.takeWhile_append_dropWhile]

theorem afterWord_eq_some {word : List Char} : afterWord word s = some rest ↔
    ∃ gap, Gap gap ∧ s = word ++ (gap ++ rest) ∧ ∀ c ∈ rest.head?, isBlank c = false := by
  constructor
  · intro h
    unfold afterWord at h
    split at h
    · next c t ht =>
      split at h
      · next hc =>
        cases h
        obtain ⟨gap, hgap, hsplit⟩ := Gap.append_dropWhile hc t
        refine ⟨gap, hgap, ?_, fun x hx => ?_⟩
        · rw [← hsplit]
          exact stripPrefix?_eq_some.mp ht
        · have hhead := List.head?_dropWhile_not isBlank t
          rw [Option.mem_def.mp hx] at hhead
          exact hhead
      · cases h
    · cases h
  · rintro ⟨gap, hgap, rfl, hrest⟩
    obtain ⟨c, gap', rfl⟩ := List.exists_cons_of_ne_nil hgap.ne_nil
    obtain ⟨hc, hgap'⟩ := List.forall_mem_cons.mp hgap.blank
    have hstrip : stripPrefix? word (word ++ (c :: gap' ++ rest)) = some (c :: (gap' ++ rest)) :=
      stripPrefix?_eq_some.mpr rfl
    rw [afterWord, hstrip]
    simp only [hc, if_true]
    rw [dropWhile_append_of_head (List.all_eq_true.mpr hgap') hrest]

theorem nameHere_eq_some : nameHere s = some name ↔
    ModuleName name ∧ ∃ rest, s = name ++ rest ∧ ∀ c ∈ rest.head?, continuesName c = false := by
  cases s with
  | nil =>
    refine iff_of_false nofun ?_
    rintro ⟨⟨⟨c, hc, -⟩, -⟩, rest, hs, -⟩
    rw [(List.append_eq_nil_iff.mp hs.symm).1] at hc
    cases hc
  | cons c s =>
    rw [nameHere, Option.ite_none_right_eq_some, Option.some_inj]
    constructor
    · rintro ⟨hc, rfl⟩
      refine ⟨⟨⟨c, rfl, hc⟩, fun x hx => ?_⟩, s.dropWhile continuesName, ?_, fun x hx => ?_⟩
      · rcases List.mem_cons.mp hx with rfl | hx
        · exact continuesName_of_isAsciiLetter hc
        · exact List.mem_takeWhile_imp hx
      · rw [List.cons_append, List.takeWhile_append_dropWhile]
      · have hhead := List.head?_dropWhile_not continuesName s
        rw [Option.mem_def.mp hx] at hhead
        exact hhead
    · rintro ⟨⟨⟨c', hc', hletter⟩, hname⟩, rest, hs, hrest⟩
      obtain ⟨name', rfl⟩ := List.head?_eq_some_iff.mp hc'
      rw [List.cons_append, List.cons.injEq] at hs
      obtain ⟨rfl, rfl⟩ := hs
      have hall := (List.forall_mem_cons.mp hname).2
      refine ⟨hletter, congrArg (c :: ·) ?_⟩
      rw [List.takeWhile_append_of_pos hall]
      cases rest with
      | nil => rw [List.takeWhile_nil, List.append_nil]
      | cons x rest => rw [List.takeWhile_cons, hrest x rfl, if_neg Bool.false_ne_true,
          List.append_nil]

theorem headerHere_eq (s : List Char) : headerHere s =
    (afterWord "module".toList (((afterWord "port".toList s).or
      (afterWord "effect".toList s)).getD s)).bind nameHere := by
  rw [headerHere]
  cases afterWord "port".toList s <;> rfl

theorem afterModule_eq_some :
    (afterWord "module".toList s).bind nameHere = some name ↔
      ModuleName name ∧ ∃ gap rest, s = "module".toList ++ (gap ++ (name ++ rest)) ∧ Gap gap ∧
        ∀ c ∈ rest.head?, continuesName c = false := by
  simp only [Option.bind_eq_some_iff, afterWord_eq_some, nameHere_eq_some]
  constructor
  · rintro ⟨t, ⟨gap, hgap, rfl, -⟩, hname, rest, rfl, hrest⟩
    exact ⟨hname, gap, rest, rfl, hgap, hrest⟩
  · rintro ⟨hname, gap, rest, rfl, hgap, hrest⟩
    refine ⟨name ++ rest, ⟨gap, hgap, rfl, fun x hx => ?_⟩, hname, rest, rfl, hrest⟩
    obtain ⟨c, hc, hletter⟩ := hname.letter
    rw [List.head?_append, Option.mem_def.mp hc, Option.some_or, Option.mem_some_iff] at hx
    exact hx ▸ isBlank_of_isAsciiLetter hletter

theorem afterWord_append (word : List Char) {gap : List Char} (hgap : Gap gap)
    (hrest : ∀ c ∈ rest.head?, isBlank c = false) :
    afterWord word (word ++ (gap ++ rest)) = some rest :=
  afterWord_eq_some.mpr ⟨gap, hgap, rfl, hrest⟩

theorem headerHere_eq_some : headerHere s = some name ↔ Headed s name := by
  rw [headerHere_eq]
  constructor
  · intro h
    cases hport : afterWord "port".toList s with
    | some t =>
      rw [hport, Option.some_or, Option.getD_some] at h
      obtain ⟨hname, gap, rest, rfl, hgap, hrest⟩ := afterModule_eq_some.mp h
      obtain ⟨between, hbetween, rfl, -⟩ := afterWord_eq_some.mp hport
      exact ⟨hname, _, gap, rest, by simp only [List.append_assoc], .port hbetween, hgap, hrest⟩
    | none =>
      cases heffect : afterWord "effect".toList s with
      | some t =>
        rw [hport, heffect, Option.none_or, Option.getD_some] at h
        obtain ⟨hname, gap, rest, rfl, hgap, hrest⟩ := afterModule_eq_some.mp h
        obtain ⟨between, hbetween, rfl, -⟩ := afterWord_eq_some.mp heffect
        exact ⟨hname, _, gap, rest, by simp only [List.append_assoc], .effect hbetween, hgap,
          hrest⟩
      | none =>
        rw [hport, heffect, Option.none_or, Option.getD_none] at h
        obtain ⟨hname, gap, rest, rfl, hgap, hrest⟩ := afterModule_eq_some.mp h
        exact ⟨hname, _, gap, rest, rfl, .plain, hgap, hrest⟩
  · rintro ⟨hname, words, gap, rest, rfl, hwords, hgap, hrest⟩
    have hmodule := afterModule_eq_some.mpr ⟨hname, gap, rest, rfl, hgap, hrest⟩
    have hword : ∀ t : List Char, ∀ c ∈ ("module".toList ++ t).head?, isBlank c = false := by
      rintro t c ⟨⟩
      rfl
    -- The first letter tells the three forms apart.
    cases hwords with
    | plain => exact hmodule
    | port hbetween =>
      rw [List.append_assoc, List.append_assoc, afterWord_append _ hbetween (hword _)]
      exact hmodule
    | effect hbetween =>
      rw [List.append_assoc, List.append_assoc, afterWord_append _ hbetween (hword _)]
      exact hmodule

/-- What lacks a character and stands in front ends before it. -/
theorem exists_of_append_cons {c : Char} {front rest lead last : List Char} (hc : c ∉ lead)
    (h : front ++ c :: rest = lead ++ last) : ∃ t, front = lead ++ t ∧ last = t ++ c :: rest := by
  rcases List.append_eq_append_iff.mp h with ⟨t, rfl, hrest⟩ | ht
  · cases t with
    | nil => exact ⟨[], by simp, hrest.symm⟩
    | cons x t =>
      obtain ⟨rfl, -⟩ := List.cons.inj hrest
      exact absurd (by simp) hc
  · exact ht

/-- A header ends before a dash, so it stays one whatever follows the dash. -/
theorem Headed.of_dash {front rest' : List Char} (h : Headed (front ++ '-' :: rest) name) :
    Headed (front ++ '-' :: rest') name := by
  obtain ⟨hname, words, gap, last, hlayout, hwords, hgap, hlast⟩ := h
  have hblank : ∀ {s : List Char}, Gap s → '-' ∉ s := fun hs hmem =>
    absurd (hs.blank _ hmem) (by decide)
  have hname' : '-' ∉ name := fun hmem => absurd (hname.continues _ hmem) (by decide +kernel)
  have hdash : '-' ∉ words ++ (gap ++ name) := by
    cases hwords with
    | plain => simp [hblank hgap, hname']
    | port hbetween => simp [hblank hgap, hname', hblank hbetween]
    | effect hbetween => simp [hblank hgap, hname', hblank hbetween]
  rw [← List.append_assoc gap, ← List.append_assoc words] at hlayout
  obtain ⟨t, rfl, rfl⟩ := exists_of_append_cons hdash hlayout
  refine ⟨hname, words, gap, t ++ '-' :: rest', by simp only [List.append_assoc], hwords, hgap, ?_⟩
  cases t with
  | nil => exact hlast
  | cons c t => exact hlast

end

/-! ## The search -/

section
variable {s name : List Char}

/-- Behind `before`, a line starts with a header. -/
def LineHeaded (s before name : List Char) : Prop :=
  ∃ after, s = before ++ '\n' :: after ∧ Headed after name

/-- The first header at the start of a line, apart from the first line. -/
def FirstLineHeader (s name : List Char) : Prop :=
  ∃ before, LineHeaded s before name ∧
    ∀ before' name', LineHeaded s before' name' → before.length ≤ before'.length

theorem lineHeaded_cons {c : Char} {before : List Char} : LineHeaded (c :: s) before name ↔
    (before = [] ∧ c = '\n' ∧ Headed s name) ∨
      ∃ before', before = c :: before' ∧ LineHeaded s before' name := by
  cases before with
  | nil =>
    simp only [LineHeaded, List.nil_append, List.cons.injEq, reduceCtorEq, false_and, exists_false,
      or_false, true_and]
    constructor
    · rintro ⟨after, ⟨hc, rfl⟩, hheaded⟩
      exact ⟨hc, hheaded⟩
    · rintro ⟨hc, hheaded⟩
      exact ⟨s, ⟨hc, rfl⟩, hheaded⟩
  | cons x before =>
    simp only [LineHeaded, List.cons_append, List.cons.injEq, reduceCtorEq, false_and, false_or]
    constructor
    · rintro ⟨after, ⟨rfl, hs⟩, hheaded⟩
      exact ⟨before, ⟨rfl, rfl⟩, after, hs, hheaded⟩
    · rintro ⟨before', ⟨rfl, rfl⟩, after, hs, hheaded⟩
      exact ⟨after, ⟨rfl, hs⟩, hheaded⟩

theorem firstHeader_true (s : List Char) :
    firstHeader true s = (headerHere s).or (firstHeader false s) := by
  cases s with
  | nil => rfl
  | cons c s =>
    rw [firstHeader, firstHeader, if_pos rfl]
    cases headerHere (c :: s) <;> rfl

theorem firstHeader_false (c : Char) (s : List Char) :
    firstHeader false (c :: s) = firstHeader (c == '\n') s := rfl

theorem firstHeader_feed (s : List Char) :
    firstHeader false ('\n' :: s) = (headerHere s).or (firstHeader false s) := firstHeader_true s

theorem firstHeader_cons {c : Char} (hc : c ≠ '\n') (s : List Char) :
    firstHeader false (c :: s) = firstHeader false s := by
  rw [firstHeader_false, beq_false_of_ne hc]

theorem firstLineHeader_of_headed (h : Headed s name) : FirstLineHeader ('\n' :: s) name :=
  ⟨[], ⟨s, rfl, h⟩, fun _ _ _ => Nat.zero_le _⟩

theorem firstLineHeader_cons {c : Char} (h : FirstLineHeader s name)
    (hno : ∀ name', ¬(c = '\n' ∧ Headed s name')) : FirstLineHeader (c :: s) name := by
  obtain ⟨before, hbefore, hleast⟩ := h
  refine ⟨c :: before, lineHeaded_cons.mpr (.inr ⟨before, rfl, hbefore⟩), fun b n hb => ?_⟩
  rcases lineHeaded_cons.mp hb with ⟨-, hhere⟩ | ⟨b', rfl, hb'⟩
  · exact absurd hhere (hno n)
  · exact Nat.succ_le_succ (hleast b' n hb')

theorem firstHeader_spec (s : List Char) :
    (∀ name, firstHeader false s = some name → FirstLineHeader s name) ∧
      (firstHeader false s = none → ∀ before name, ¬LineHeaded s before name) := by
  induction s with
  | nil =>
    refine ⟨nofun, fun _ before name ⟨after, hs, _⟩ => ?_⟩
    simp at hs
  | cons c s ih =>
    by_cases hc : c = '\n'
    · subst hc
      rw [firstHeader_feed]
      cases hhere : headerHere s with
      | some name =>
        refine ⟨fun name' hname' => ?_, nofun⟩
        cases hname'
        exact firstLineHeader_of_headed (headerHere_eq_some.mp hhere)
      | none =>
        have hno : ∀ name, ¬('\n' = '\n' ∧ Headed s name) := by
          rintro name ⟨-, hheaded⟩
          rw [headerHere_eq_some.mpr hheaded] at hhere
          cases hhere
        refine ⟨fun name h => firstLineHeader_cons (ih.1 name h) hno, fun h before name hline => ?_⟩
        rcases lineHeaded_cons.mp hline with ⟨-, hheaded⟩ | ⟨before', rfl, hline'⟩
        · exact hno name hheaded
        · exact ih.2 h before' name hline'
    · rw [firstHeader_cons hc]
      refine ⟨fun name h => firstLineHeader_cons (ih.1 name h) fun _ hn => hc hn.1,
        fun h before name hline => ?_⟩
      rcases lineHeaded_cons.mp hline with ⟨-, hn, -⟩ | ⟨before', rfl, hline'⟩
      · exact hc hn
      · exact ih.2 h before' name hline'

theorem FirstLineHeader.unique {name' : List Char} (h : FirstLineHeader s name)
    (h' : FirstLineHeader s name') : name = name' := by
  obtain ⟨before, ⟨after, hs, hheaded⟩, hleast⟩ := h
  obtain ⟨before', ⟨after', hs', hheaded'⟩, hleast'⟩ := h'
  have hlength : before.length = before'.length :=
    Nat.le_antisymm (hleast _ _ ⟨after', hs', hheaded'⟩) (hleast' _ _ ⟨after, hs, hheaded⟩)
  obtain ⟨-, hafter⟩ := List.append_inj (hs.symm.trans hs') hlength
  cases hafter
  have hsame := headerHere_eq_some.mpr hheaded
  rw [headerHere_eq_some.mpr hheaded'] at hsame
  exact (Option.some.inj hsame).symm

theorem firstHeader_eq_some : firstHeader false s = some name ↔ FirstLineHeader s name := by
  refine ⟨(firstHeader_spec s).1 name, fun h => ?_⟩
  cases hs : firstHeader false s with
  | some name' => rw [h.unique ((firstHeader_spec s).1 name' hs)]
  | none =>
    obtain ⟨before, hline, -⟩ := h
    exact absurd hline ((firstHeader_spec s).2 hs before name)

theorem firstHeader_eq_none :
    firstHeader false s = none ↔ ∀ before name, ¬LineHeaded s before name := by
  refine ⟨(firstHeader_spec s).2, fun h => ?_⟩
  cases hs : firstHeader false s with
  | none => rfl
  | some name =>
    obtain ⟨before, hline, -⟩ := (firstHeader_spec s).1 name hs
    exact absurd hline (h before name)

end

/-! ## Blanks and comments -/

/-- What may stand in front of the header. -/
inductive Trivia where
  | blank (c : Char) (h : isBlank c = true)
  /-- Two dashes and the rest of the line. -/
  | line (text : List Char) (h : '\n' ∉ text)
  /-- A comment in braces may hold anything, and comments in braces too. -/
  | block (text : List Char)

namespace Trivia

def chars : Trivia → List Char
  | blank c _ => [c]
  | line text _ => '-' :: '-' :: (text ++ ['\n'])
  | block text => '{' :: '-' :: (text ++ ['-', '}'])

/-- What a comment in braces says up to its end. -/
def body : Trivia → List Char
  | blank _ _ | line _ _ => []
  | block text => text ++ ['-', '}']

def endsLine : Trivia → Bool
  | blank c _ => c == '\n'
  | line _ _ => true
  | block _ => false

end Trivia

/-- The first header in the comments, apart from those on their first lines. -/
def FirstCommented (trivia : List Trivia) (name : List Char) : Prop :=
  ∃ earlier t later, trivia = earlier ++ t :: later ∧ FirstLineHeader t.body name ∧
    ∀ u ∈ earlier, ∀ before name', ¬LineHeaded u.body before name'

section
variable {s name : List Char}

theorem Headed.head {c : Char} (h : Headed (c :: s) name) : c = 'm' ∨ c = 'p' ∨ c = 'e' := by
  obtain ⟨-, words, gap, rest, hs, hwords, -⟩ := h
  cases hwords with
  | plain => exact .inl (List.cons.inj hs).1
  | port => exact .inr (.inl (List.cons.inj hs).1)
  | effect => exact .inr (.inr (List.cons.inj hs).1)

theorem firstHeader_of_head {c : Char} (hc : ¬(c = 'm' ∨ c = 'p' ∨ c = 'e')) (atStart : Bool)
    (s : List Char) : firstHeader atStart (c :: s) = firstHeader (c == '\n') s := by
  have hnone : headerHere (c :: s) = none := by
    rw [Option.eq_none_iff_forall_ne_some]
    exact fun name h => hc (headerHere_eq_some.mp h).head
  cases atStart with
  | false => rfl
  | true => rw [firstHeader_true, hnone, Option.none_or, firstHeader_false]

theorem firstHeader_append {text : List Char} (h : '\n' ∉ text) (s : List Char) :
    firstHeader false (text ++ s) = firstHeader false s := by
  induction text with
  | nil => rfl
  | cons c text ih =>
    rw [List.mem_cons, not_or] at h
    rw [List.cons_append, firstHeader_cons (Ne.symm h.1), ih h.2]

theorem firstHeader_eq (atStart : Bool) (c : Char) (s : List Char) : firstHeader atStart (c :: s) =
    (if atStart then headerHere (c :: s) else none).or (firstHeader (c == '\n') s) := by
  rw [firstHeader]
  cases (if atStart then headerHere (c :: s) else none) <;> rfl

theorem headerHere_dash (front rest rest' : List Char) :
    headerHere (front ++ '-' :: rest) = headerHere (front ++ '-' :: rest') := by
  apply Option.ext
  intro name
  rw [headerHere_eq_some, headerHere_eq_some]
  exact ⟨Headed.of_dash, Headed.of_dash⟩

/-- A dash parts the headers before it from those behind it. -/
theorem firstHeader_dash (atStart : Bool) (front s : List Char) :
    firstHeader atStart (front ++ '-' :: s) =
      (firstHeader atStart (front ++ ['-'])).or (firstHeader false s) := by
  induction front generalizing atStart with
  | nil =>
    rw [List.nil_append, List.nil_append, firstHeader_of_head (by decide),
      firstHeader_of_head (by decide)]
    rfl
  | cons c front ih =>
    have hhere := headerHere_dash (c :: front) s []
    rw [List.cons_append] at hhere
    rw [List.cons_append, firstHeader_eq, hhere, ih, List.cons_append, firstHeader_eq,
      Option.or_assoc]

theorem firstHeader_trivia (t : Trivia) (atStart : Bool) (s : List Char) :
    firstHeader atStart (t.chars ++ s) =
      (firstHeader false t.body).or (firstHeader t.endsLine s) := by
  cases t with
  | blank c hc =>
    refine firstHeader_of_head ?_ atStart s
    rintro (rfl | rfl | rfl) <;> exact absurd hc (by decide)
  | line text htext =>
    rw [Trivia.chars, List.cons_append, List.cons_append, List.append_assoc,
      firstHeader_of_head (by decide), firstHeader_of_head (by decide)]
    exact firstHeader_append htext _
  | block text =>
    have hend : firstHeader false (text ++ ['-', '}']) = firstHeader false (text ++ ['-']) := by
      rw [firstHeader_dash]
      exact Option.or_none
    rw [Trivia.chars, List.cons_append, List.cons_append, List.append_assoc,
      firstHeader_of_head (by decide), firstHeader_of_head (by decide), Trivia.body, hend]
    exact firstHeader_dash false text _

theorem firstHeader_flatMap (trivia : List Trivia) (atStart : Bool) (s : List Char) :
    firstHeader atStart (trivia.flatMap Trivia.chars ++ s) =
      (trivia.findSome? fun t => firstHeader false t.body).or
        (firstHeader (trivia.foldl (fun _ t => t.endsLine) atStart) s) := by
  induction trivia generalizing atStart with
  | nil => rfl
  | cons t trivia ih =>
    rw [List.flatMap_cons, List.append_assoc, firstHeader_trivia, ih, List.foldl_cons,
      List.findSome?_cons]
    cases firstHeader false t.body <;> rfl

end

/-! ## The declared module -/

/-- A line starts behind the text. -/
def AtLineStart (s : List Char) : Prop := s = [] ∨ s.getLast? = some '\n'

theorem endsLine_of_getLast? {t : Trivia} (h : t.chars.getLast? = some '\n') :
    t.endsLine = true := by
  cases t with
  | blank c hc => exact beq_iff_eq.mpr (Option.some.inj h)
  | line text htext => rfl
  | block text =>
    have hchars : (Trivia.block text).chars = '{' :: '-' :: (text ++ ['-']) ++ ['}'] := by
      simp [Trivia.chars]
    rw [hchars, List.getLast?_concat] at h
    exact absurd h (by decide)

theorem foldl_endsLine {trivia : List Trivia} (h : AtLineStart (trivia.flatMap Trivia.chars)) :
    trivia.foldl (fun _ t => t.endsLine) true = true := by
  rcases List.eq_nil_or_concat trivia with rfl | ⟨ts, t, rfl⟩
  · rfl
  · have hne : t.chars ≠ [] := by cases t <;> exact List.cons_ne_nil _ _
    rw [List.concat_eq_append, List.flatMap_append, List.flatMap_singleton] at h
    rw [List.concat_eq_append, List.foldl_append]
    refine endsLine_of_getLast? (h.elim (fun h => ?_) fun h => ?_)
    · exact absurd (List.append_eq_nil_iff.mp h).2 hne
    · rwa [List.getLast?_append_of_ne_nil _ hne] at h

/-- The module is the one in the header if no comment has a header at the start of one of its
further lines, and else the one in the first of those. -/
theorem declared_behind_trivia {source name : String} {trivia : List Trivia}
    {rest : List Char} (hsource : source.toList = trivia.flatMap Trivia.chars ++ rest)
    (hstart : AtLineStart (trivia.flatMap Trivia.chars)) (hheader : Headed rest name.toList) :
    ((∀ t ∈ trivia, ∀ before n, ¬LineHeaded t.body before n) →
      declaredModule? source = some name) ∧
    ∀ n : String, FirstCommented trivia n.toList → declaredModule? source = some n := by
  have hsearch : declaredModule? source =
      ((trivia.findSome? fun t => firstHeader false t.body).or (some name.toList)).map
        String.ofList := by
    rw [declaredModule?, hsource, firstHeader_flatMap, foldl_endsLine hstart, firstHeader_true,
      headerHere_eq_some.mpr hheader, Option.some_or]
  refine ⟨fun hnone => ?_, fun n => ?_⟩
  · have hcomments : (trivia.findSome? fun t => firstHeader false t.body) = none :=
      List.findSome?_eq_none_iff.mpr fun t ht => firstHeader_eq_none.mpr (hnone t ht)
    rw [hsearch, hcomments, Option.none_or, Option.map_some, String.ofList_toList]
  · rintro ⟨earlier, t, later, htrivia, hfirst, hearlier⟩
    have hcomments : (trivia.findSome? fun t => firstHeader false t.body) = some n.toList :=
      List.findSome?_eq_some_iff.mpr ⟨earlier, t, later, htrivia, firstHeader_eq_some.mpr hfirst,
        fun u hu => firstHeader_eq_none.mpr (hearlier u hu)⟩
    rw [hsearch, hcomments, Option.some_or, Option.map_some, String.ofList_toList]

/-- None of the comments starts a line with a header. -/
def remarked : String :=
  "-- module A\n\x7b- module B\n  module C \x7b- -\x7d -\x7d\n\nport\n module Page.Home_2(..)"

theorem declared_behind_remarks : declaredModule? remarked = some "Page.Home_2" := by
  have hsource : remarked.toList = [.line " module A".toList (by decide),
      .block " module B\n  module C \x7b- -\x7d ".toList, .blank '\n' rfl, .blank '\n' rfl].flatMap
        Trivia.chars ++ "port\n module Page.Home_2(..)".toList := by decide +kernel
  refine (declared_behind_trivia hsource (.inr (by decide +kernel))
    (headerHere_eq_some.mp (by decide +kernel))).1 fun t ht => firstHeader_eq_none.mp ?_
  revert t ht
  decide +kernel

/-- A header that was commented out. -/
def disused : String := "\x7b-\nmodule Old exposing (..)\n-\x7d\nmodule Main exposing (main)\n"

/-- The module is declared by the comment and not by the header behind it. -/
theorem declared_by_comment :
    (∃ (trivia : List Trivia) (rest : List Char),
      disused.toList = trivia.flatMap Trivia.chars ++ rest ∧
      AtLineStart (trivia.flatMap Trivia.chars) ∧ Headed rest "Main".toList) ∧
    declaredModule? disused = some "Old" := by
  refine ⟨⟨[.block "\nmodule Old exposing (..)\n".toList, .blank '\n' rfl],
    "module Main exposing (main)\n".toList, by decide +kernel, .inr (by decide +kernel),
    headerHere_eq_some.mp (by decide +kernel)⟩, by decide +kernel⟩

end UsageGraph
