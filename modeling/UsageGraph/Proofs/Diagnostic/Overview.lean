import Mathlib.Data.List.Forall2
import Mathlib.Data.List.Infix
import UsageGraph.Diagnostic.Overview
import UsageGraph.Proofs.Package.Ids

/-! # Reading overviews back

The four parts of an overview are read greedily, and a symbol may hold pieces of the message form.
That nothing else than what was rendered is read comes from the quotes of the form: six of them
stand behind the symbol, and the form needs them all.

* `Overview.longest_append`: a part ends where what follows it is found for the last time.
* `Overview.Closes`: how many quotes there are up to a place where the form may end.
* `Overview.matchHere_renderChars`: from its start, the form is read as it was rendered.
* `Overview.Rewraps`: line feeds in place of some spaces.
* `Overview.read_back`: an overview is read back from a message, and what is read from a
  message is rendered in it.
-/

namespace UsageGraph
open Text
set_option autoImplicit false

namespace Overview

/-! ## The pieces of a search -/

section
variable {α : Type} {next : List Char → Option α} {s front back lead literal : List Char} {a : α}

theorem after_eq_some :
    after literal next s = some a ↔ ∃ rest, s = literal ++ rest ∧ next rest = some a := by
  simp only [after, Option.bind_eq_some_iff, stripPrefix?_eq_some]

theorem afterOne_eq_some {isIn : Char → Bool} : afterOne isIn next s = some a ↔
    ∃ c rest, isIn c ∧ s = c :: rest ∧ next rest = some a := by
  cases s with
  | nil => simp [afterOne]
  | cons c s =>
    rw [afterOne]
    split
    · next h => simp [h]
    · next h => simpa using fun h' => absurd h' h

theorem longest_eq_some (h : longest next s = some (front, a)) :
    ∃ rest, s = front ++ rest ∧ next rest = some a := by
  induction s generalizing front a with
  | nil =>
    obtain ⟨b, hb, heq⟩ := Option.map_eq_some_iff.mp h
    cases heq
    exact ⟨[], rfl, hb⟩
  | cons c s ih =>
    rw [longest] at h
    split at h
    · next hlonger =>
      cases h
      obtain ⟨rest, hrest, hnext⟩ := ih hlonger
      exact ⟨rest, congrArg (c :: ·) hrest, hnext⟩
    · obtain ⟨b, hb, heq⟩ := Option.map_eq_some_iff.mp h
      cases heq
      exact ⟨c :: s, rfl, hb⟩

theorem longest_eq_none (h : ∀ front rest, s = front ++ rest → next rest = none) :
    longest next s = none := by
  cases hs : longest next s with
  | none => rfl
  | some r =>
    obtain ⟨rest, hrest, hnext⟩ := longest_eq_some hs
    rw [h r.1 rest hrest] at hnext
    cases hnext

/-- A part ends where what follows it is found for the last time. -/
theorem longest_append (h : next back = some a)
    (hlast : ∀ x rest, x ≠ [] → back = x ++ rest → next rest = none) :
    longest next (front ++ back) = some (front, a) := by
  induction front with
  | nil =>
    cases back with
    | nil => rw [List.nil_append, longest, h, Option.map_some]
    | cons c back =>
      have hnone : longest next back = none := longest_eq_none fun front rest hrest =>
        hlast (c :: front) rest (List.cons_ne_nil _ _) (congrArg (c :: ·) hrest)
      rw [List.nil_append, longest, hnone, h, Option.map_some]
  | cons c front ih => rw [List.cons_append, longest, ih]

theorem search_eq_some (h : search next s = some a) :
    ∃ lead rest, s = lead ++ rest ∧ next rest = some a := by
  induction s with
  | nil => exact ⟨[], [], rfl, h⟩
  | cons c s ih =>
    rw [search] at h
    split at h
    · next hnext =>
      cases h
      exact ⟨[], c :: s, rfl, hnext⟩
    · obtain ⟨lead, rest, hs, hnext⟩ := ih h
      exact ⟨c :: lead, rest, congrArg (c :: ·) hs, hnext⟩

theorem search_append (h : next s = some a)
    (hlead : ∀ x, x ≠ [] → x <:+ lead → next (x ++ s) = none) :
    search next (lead ++ s) = some a := by
  induction lead with
  | nil =>
    cases s with
    | nil => exact h
    | cons c s => rw [List.nil_append, search, h]
  | cons c lead ih =>
    have hnone := hlead (c :: lead) (List.cons_ne_nil _ _) (List.suffix_refl _)
    rw [List.cons_append] at hnone
    rw [List.cons_append, search, hnone]
    exact ih fun x hx hsuffix => hlead x hx (hsuffix.trans (List.suffix_cons _ _))

end

/-! ## Quotes -/

/-- There are `n` quotes up to a place where the form may end. -/
def Closes (n : Nat) (s : List Char) : Prop :=
  ∃ x, x ++ afterModule <+: s ∧ n ≤ (x ++ afterModule).count '"'

section
variable {α : Type} {next : List Char → Option α} {n : Nat} {s : List Char}

theorem Closes.append (h : Closes n s) (l : List Char) : Closes (l.count '"' + n) (l ++ s) := by
  obtain ⟨x, hx, hn⟩ := h
  refine ⟨l ++ x, ?_, ?_⟩
  · rw [List.append_assoc]
    exact (List.prefix_append_right_inj l).mpr hx
  · rw [List.append_assoc, List.count_append]
    omega

theorem Closes.of_append {l : List Char} (h : Closes n s) : Closes n (l ++ s) := by
  obtain ⟨x, hx, hn⟩ := h.append l
  exact ⟨x, hx, by omega⟩

theorem closes_of_after (hnext : ∀ s a, next s = some a → Closes n s) (literal : List Char) (s a)
    (h : after literal next s = some a) : Closes (literal.count '"' + n) s := by
  obtain ⟨rest, rfl, hrest⟩ := after_eq_some.mp h
  exact (hnext rest a hrest).append literal

theorem closes_of_longest (hnext : ∀ s a, next s = some a → Closes n s) (s a)
    (h : longest next s = some a) : Closes n s := by
  obtain ⟨rest, rfl, hrest⟩ := longest_eq_some h
  exact (hnext rest a.2 hrest).of_append

/-- Where the form ends for the last time, no end of the form reaches any further. -/
theorem prefix_of_closed {r rest x : List Char} (hr : afterModule <:+ r)
    (hrest : ¬afterModule <:+: rest) (h : x ++ afterModule <+: r ++ rest) :
    x ++ afterModule <+: r := by
  obtain ⟨r', rfl⟩ := hr
  obtain ⟨z, hz⟩ := h
  rcases Nat.lt_or_ge (r' ++ afterModule).length (x ++ afterModule).length with hlt | hge
  · exfalso
    rw [List.append_assoc] at hz
    rcases List.append_eq_append_iff.mp hz.symm with ⟨w, -, hw⟩ | ⟨w, hw, hw'⟩
    · exact hrest ⟨w, z, by rw [hw, List.append_assoc]⟩
    · -- At most one character of this end is before `rest`, where the form has no quote.
      have hlength : w.length < 2 := by
        have hlen := congrArg List.length hw
        simp only [List.length_append] at hlen hlt
        have htwo : afterModule.length = 2 := rfl
        omega
      match w, hlength with
      | [], _ => exact hrest ⟨[], z, hw'⟩
      | [c], _ =>
        have hc : '"' = c := (List.cons.inj hw').1
        have hlast := congrArg List.getLast? hw
        rw [List.getLast?_concat, List.getLast?_append, ← hc] at hlast
        cases hlast
  · exact List.prefix_of_prefix_length_le ⟨z, hz⟩ (List.prefix_append _ rest) hge

theorem count_le_of_closes {r rest x tail : List Char} (hr : afterModule <:+ r)
    (hrest : ¬afterModule <:+: rest) (h : r ++ rest = x ++ tail) (htail : Closes n tail) :
    x.count '"' + n ≤ r.count '"' := by
  obtain ⟨y, hy, hn⟩ := htail
  have hprefix : x ++ y ++ afterModule <+: r := by
    refine prefix_of_closed hr hrest ?_
    rw [h, List.append_assoc]
    exact (List.prefix_append_right_inj x).mpr hy
  have hle := hprefix.sublist.count_le '"'
  rw [List.append_assoc, List.count_append] at hle
  omega

end

/-! ## The parts, one behind the other -/

def moduleOf (s : List Char) : Option (List Char) :=
  (longest (after afterModule fun _ => some ()) s).map Prod.fst

def projectOf : List Char → Option (List Char × List Char) :=
  longest (after beforeModule moduleOf)

def ownerOf : List Char → Option (List Char × List Char × List Char) :=
  longest (after beforeProject projectOf)

def symbolOf : List Char → Option (List Char × List Char × List Char × List Char) :=
  longest (afterOne closes (after beforeOwner ownerOf))

theorem matchHere_eq : matchHere = after beforeSymbol (afterOne opens symbolOf) := rfl

theorem closes_of_end (s a) (h : after afterModule (fun _ => some ()) s = some a) : Closes 1 s := by
  obtain ⟨rest, rfl, -⟩ := after_eq_some.mp h
  exact ⟨[], List.prefix_append _ _, Nat.le_refl 1⟩

theorem closes_of_moduleOf (s a) (h : moduleOf s = some a) : Closes 1 s := by
  obtain ⟨b, hb, -⟩ := Option.map_eq_some_iff.mp h
  exact closes_of_longest closes_of_end s b hb

theorem closes_of_beforeModule : ∀ s a, after beforeModule moduleOf s = some a → Closes 3 s :=
  closes_of_after closes_of_moduleOf beforeModule

theorem closes_of_beforeProject : ∀ s a, after beforeProject projectOf s = some a → Closes 5 s :=
  closes_of_after (closes_of_longest closes_of_beforeModule) beforeProject

theorem closes_of_beforeOwner : ∀ s a, after beforeOwner ownerOf s = some a → Closes 6 s :=
  closes_of_after (closes_of_longest closes_of_beforeProject) beforeOwner

/-! ## What follows the parts -/

section
variable (owner project module rest : List Char)

def fromModule : List Char := beforeModule ++ (module ++ (afterModule ++ rest))

def fromProject : List Char := beforeProject ++ (project ++ fromModule module rest)

def fromOwner : List Char := beforeOwner ++ (owner ++ fromProject project module rest)

theorem fromModule_append : fromModule module rest = fromModule module [] ++ rest := by
  simp [fromModule]

theorem fromProject_append :
    fromProject project module rest = fromProject project module [] ++ rest := by
  rw [fromProject, fromModule_append, fromProject, List.append_assoc, List.append_assoc]

theorem fromOwner_append :
    fromOwner owner project module rest = fromOwner owner project module [] ++ rest := by
  rw [fromOwner, fromProject_append, fromOwner, List.append_assoc, List.append_assoc]

theorem suffix_fromModule : afterModule <:+ fromModule module [] :=
  ⟨beforeModule ++ module, by simp [fromModule]⟩

theorem suffix_fromProject : afterModule <:+ fromProject project module [] :=
  (suffix_fromModule module).trans ⟨beforeProject ++ project, by simp [fromProject]⟩

theorem suffix_fromOwner : afterModule <:+ fromOwner owner project module [] :=
  (suffix_fromProject project module).trans ⟨beforeOwner ++ owner, by simp [fromOwner]⟩

variable {owner project module} (howner : '"' ∉ owner) (hproject : '"' ∉ project)
  (hmodule : '"' ∉ module)

include hmodule in
theorem count_fromModule : (fromModule module []).count '"' = 3 := by
  rw [fromModule, List.count_append, List.count_append, List.count_eq_zero.mpr hmodule]
  rfl

include hproject hmodule in
theorem count_fromProject : (fromProject project module []).count '"' = 5 := by
  rw [fromProject, List.count_append, List.count_append, count_fromModule hmodule,
    List.count_eq_zero.mpr hproject]
  rfl

include howner hproject hmodule in
theorem count_fromOwner : (fromOwner owner project module []).count '"' = 6 := by
  rw [fromOwner, List.count_append, List.count_append, count_fromProject hproject hmodule,
    List.count_eq_zero.mpr howner]
  rfl

end

/-! ## The parts as they were rendered -/

section
variable {symbol owner project module rest : List Char} (hrest : ¬afterModule <:+: rest)
include hrest

/-- Where the form goes on with a quote and has no more quotes than it needs, it does not go on at
any later place. -/
theorem eq_none_of_later {α : Type} {next : List Char → Option α} {n : Nat} {r : List Char}
    (hnext : ∀ s a, next s = some a → Closes n s) (hr : afterModule <:+ r)
    (hcount : r.count '"' = n) (hquote : r.head? = some '"') (x tail : List Char) (hx : x ≠ [])
    (h : r ++ rest = x ++ tail) : next tail = none := by
  cases htail : next tail with
  | none => rfl
  | some a =>
    have hle := count_le_of_closes hr hrest h (hnext tail a htail)
    obtain ⟨c, x, rfl⟩ := List.exists_cons_of_ne_nil hx
    obtain ⟨r, rfl⟩ := List.head?_eq_some_iff.mp hquote
    have hc : '"' = c := (List.cons.inj h).1
    rw [← hc, List.count_cons_self] at hle
    omega

theorem moduleOf_append : moduleOf (module ++ (afterModule ++ rest)) = some module := by
  have hend : after afterModule (fun _ => some ()) (afterModule ++ rest) = some () :=
    after_eq_some.mpr ⟨rest, rfl, rfl⟩
  rw [moduleOf, longest_append hend, Option.map_some]
  exact eq_none_of_later hrest closes_of_end (List.suffix_refl _) rfl rfl

variable (hmodule : '"' ∉ module)
include hmodule

theorem projectOf_append :
    projectOf (project ++ fromModule module rest) = some (project, module) := by
  refine longest_append (after_eq_some.mpr ⟨_, rfl, moduleOf_append hrest⟩) ?_
  rw [fromModule_append]
  exact eq_none_of_later hrest closes_of_beforeModule (suffix_fromModule module)
    (count_fromModule hmodule) rfl

variable (hproject : '"' ∉ project)
include hproject

theorem ownerOf_append :
    ownerOf (owner ++ fromProject project module rest) = some (owner, project, module) := by
  refine longest_append (after_eq_some.mpr ⟨_, rfl, projectOf_append hrest hmodule⟩) ?_
  rw [fromProject_append]
  exact eq_none_of_later hrest closes_of_beforeProject (suffix_fromProject project module)
    (count_fromProject hproject hmodule) rfl

/-- The symbol may hold quotes, and what follows it does not start with one. -/
theorem symbolOf_append {closing : Char} (hclosing : closes closing) (howner : '"' ∉ owner) :
    symbolOf (symbol ++ closing :: fromOwner owner project module rest) =
      some (symbol, owner, project, module) := by
  have hfirst : ∀ c, closes c → '"' ∉ c :: beforeOwner.dropLast := by
    intro c hc
    rw [List.mem_cons, not_or]
    refine ⟨?_, by decide⟩
    rintro rfl
    cases hc
  refine longest_append (afterOne_eq_some.mpr ⟨closing, _, hclosing, rfl,
    after_eq_some.mpr ⟨_, rfl, ownerOf_append hrest hmodule hproject⟩⟩) ?_
  intro x tail hx h
  cases htail : afterOne closes (after beforeOwner ownerOf) tail with
  | none => rfl
  | some a =>
    exfalso
    obtain ⟨c, s, hc, rfl, hs⟩ := afterOne_eq_some.mp htail
    by_cases hquote : '"' ∈ x
    · -- Too few quotes are left behind `x`.
      have hcloses : Closes 6 (c :: s) := (closes_of_beforeOwner s a hs).of_append (l := [c])
      have hsuffix : afterModule <:+ closing :: fromOwner owner project module [] :=
        (suffix_fromOwner owner project module).trans (List.suffix_cons _ _)
      rw [fromOwner_append] at h
      have hle := count_le_of_closes hsuffix hrest h hcloses
      have hne : closing ≠ '"' := by
        rintro rfl
        cases hclosing
      rw [List.count_cons_of_ne hne, count_fromOwner howner hproject hmodule] at hle
      have hpos := List.count_pos_iff.mpr hquote
      omega
    · -- The first quote would be at two places.
      obtain ⟨s', rfl, -⟩ := after_eq_some.mp hs
      have hnotMem : '"' ∉ x ++ c :: beforeOwner.dropLast := by
        rw [List.mem_append, not_or]
        exact ⟨hquote, hfirst c hc⟩
      have hplaces : (closing :: beforeOwner.dropLast) ++
          '"' :: (owner ++ fromProject project module rest) =
            (x ++ c :: beforeOwner.dropLast) ++ '"' :: s' := by
        rw [List.append_assoc]
        exact h
      have hsame := (append_cons_injective (hfirst closing hclosing) hnotMem hplaces).1
      have hlength := congrArg List.length hsame
      rw [List.length_append, List.length_cons, List.length_cons] at hlength
      exact hx (List.length_eq_zero_iff.mp (by omega))

end

/-- What follows the start of the form, as its parts. -/
theorem renderChars_append (o : Overview) (opening closing : Char) (rest : List Char) :
    o.renderChars opening closing ++ rest = beforeSymbol ++ opening :: (o.symbol.toList ++
      closing :: fromOwner o.package.owner.toList o.package.name.toList o.module.toList rest) := by
  simp [renderChars, fromOwner, fromProject, fromModule]

/-- The parts of a rendered overview, as the form gives them. -/
def partsOf (o : Overview) : List Char × List Char × List Char × List Char :=
  (o.symbol.toList, o.package.owner.toList, o.package.name.toList, o.module.toList)

/-- No part behind the symbol has a quote. -/
def Unquoted (o : Overview) : Prop :=
  '"' ∉ o.package.owner.toList ∧ '"' ∉ o.package.name.toList ∧ '"' ∉ o.module.toList

/-- From its start, the form is read as it was rendered. -/
theorem matchHere_renderChars {o : Overview} (h : o.Unquoted) {opening closing : Char}
    (hopening : opens opening) (hclosing : closes closing) {rest : List Char}
    (hrest : ¬afterModule <:+: rest) :
    matchHere (o.renderChars opening closing ++ rest) = some o.partsOf := by
  rw [matchHere_eq, renderChars_append]
  exact after_eq_some.mpr ⟨_, rfl, afterOne_eq_some.mpr ⟨opening, _, hopening, rfl,
    symbolOf_append hrest h.2.2 h.2.1 hclosing h.1⟩⟩

/-- What the form gives is rendered there. -/
theorem prefix_of_matchHere {s symbol owner project module : List Char}
    (h : matchHere s = some (symbol, owner, project, module)) : ∃ opening closing rest,
      opens opening ∧ closes closing ∧ s = beforeSymbol ++
        opening :: (symbol ++ closing :: fromOwner owner project module rest) := by
  rw [matchHere_eq] at h
  obtain ⟨_, rfl, hform⟩ := after_eq_some.mp h
  obtain ⟨opening, _, hopening, rfl, hsymbol⟩ := afterOne_eq_some.mp hform
  obtain ⟨_, rfl, hclose⟩ := longest_eq_some hsymbol
  obtain ⟨closing, _, hclosing, rfl, hbetween⟩ := afterOne_eq_some.mp hclose
  obtain ⟨_, rfl, howner⟩ := after_eq_some.mp hbetween
  obtain ⟨_, rfl, hafterOwner⟩ := longest_eq_some howner
  obtain ⟨_, rfl, hproject⟩ := after_eq_some.mp hafterOwner
  obtain ⟨_, rfl, hafterProject⟩ := longest_eq_some hproject
  obtain ⟨_, rfl, hmodule⟩ := after_eq_some.mp hafterProject
  obtain ⟨⟨module, _⟩, hlast, rfl⟩ := Option.map_eq_some_iff.mp hmodule
  obtain ⟨_, rfl, hend⟩ := longest_eq_some hlast
  obtain ⟨rest, rfl, -⟩ := after_eq_some.mp hend
  exact ⟨opening, closing, rest, hopening, hclosing, rfl⟩

/-! ## Whole messages -/

/-- The form cannot start before a place where it starts. -/
theorem matchHere_append_eq_none {x s : List Char} (hx : x ≠ []) (hstart : ¬beforeSymbol <:+: x) :
    matchHere (x ++ (beforeSymbol ++ s)) = none := by
  cases h : matchHere (x ++ (beforeSymbol ++ s)) with
  | none => rfl
  | some a =>
    exfalso
    rw [matchHere_eq] at h
    obtain ⟨rest, hrest, -⟩ := after_eq_some.mp h
    rcases List.append_eq_append_iff.mp hrest with ⟨y, hy, hs⟩ | ⟨y, hy, -⟩
    · -- The `E` that the form starts with would stand further behind in it.
      cases y with
      | nil => exact hstart ⟨[], [], by rw [hy]; simp⟩
      | cons c y =>
        have hc : 'E' = c := (List.cons.inj hs).1
        obtain ⟨e, x, rfl⟩ := List.exists_cons_of_ne_nil hx
        have htail : beforeSymbol.tail = x ++ c :: y := by rw [hy, List.cons_append, List.tail_cons]
        have hmem : 'E' ∈ beforeSymbol.tail := by
          rw [htail, hc]
          exact List.mem_append_right _ List.mem_cons_self
        exact absurd hmem (by decide)
    · exact hstart ⟨[], y, by rw [hy, List.nil_append]⟩

/-- A line feed counts as a space. -/
def unwrapped (c : Char) : Char := if c = '\n' then ' ' else c

theorem unwrapped_of_ne {c : Char} (h : c ≠ '\n') : unwrapped c = c := if_neg h

/-- The text in which some spaces of a line have been replaced by line feeds. -/
def Rewraps (line text : List Char) : Prop :=
  List.Forall₂ (fun c d => d = c ∨ c = ' ' ∧ d = '\n') line text

theorem Rewraps.map_unwrapped {line text : List Char} (h : Rewraps line text)
    (hline : '\n' ∉ line) : text.map unwrapped = line := by
  induction h with
  | nil => rfl
  | cons hcd _ ih =>
    rw [List.mem_cons, not_or] at hline
    rw [List.map_cons, ih hline.2]
    rcases hcd with rfl | ⟨rfl, rfl⟩
    · rw [unwrapped_of_ne (Ne.symm hline.1)]
    · rfl

/-- All parts of the message are on one line. -/
def OnOneLine (o : Overview) : Prop :=
  '\n' ∉ o.symbol.toList ∧ '\n' ∉ o.package.owner.toList ∧ '\n' ∉ o.package.name.toList ∧
    '\n' ∉ o.module.toList

theorem notMem_renderChars {o : Overview} (h : o.OnOneLine) {opening closing : Char}
    (hopening : opens opening) (hclosing : closes closing) :
    '\n' ∉ o.renderChars opening closing := by
  have hopen : '\n' ≠ opening := by
    rintro rfl
    cases hopening
  have hclose : '\n' ≠ closing := by
    rintro rfl
    cases hclosing
  obtain ⟨hsymbol, howner, hname, hmodule⟩ := h
  have hform : ∀ piece ∈ [beforeSymbol, beforeOwner, beforeProject, beforeModule, afterModule],
      '\n' ∉ piece := by decide
  simp only [List.forall_mem_cons] at hform
  simp [renderChars, hform, hopen, hclose, hsymbol, howner, hname, hmodule]

theorem unwrapped_eq {c d : Char} (h : unwrapped c = d) (hd : d ≠ ' ') : c = d := by
  rw [unwrapped] at h
  split at h
  · exact absurd h.symm hd
  · exact h

/-- The end of the form has no line feeds. -/
theorem infix_of_map_unwrapped {rest : List Char} (h : afterModule <:+: rest.map unwrapped) :
    afterModule <:+: rest := by
  obtain ⟨piece, hpiece, heq⟩ := List.infix_map_iff.mp h
  obtain ⟨a, piece, rfl, ha, hpiece'⟩ := List.map_eq_cons_iff.mp heq.symm
  obtain ⟨b, piece, rfl, hb, hnil⟩ := List.map_eq_cons_iff.mp hpiece'
  have hquote : a = '"' := unwrapped_eq ha (by decide)
  have hbrace : b = '\x7d' := unwrapped_eq hb (by decide)
  rw [hquote, hbrace, List.map_eq_nil_iff.mp hnil] at hpiece
  exact hpiece

/-- An overview is read back from a message that holds it, whatever stands before and behind it and
however its lines are broken. What is read from a message is in it. -/
theorem read_back :
    (∀ (o : Overview) (opening closing : Char) (lead text rest : List Char) (s : String),
      o.OnOneLine → o.Unquoted → opens opening → closes closing →
      ¬beforeSymbol <:+: lead.map unwrapped → ¬afterModule <:+: rest →
      Rewraps (o.renderChars opening closing) text → s.toList = lead ++ text ++ rest →
      parse? s = some o) ∧
    ∀ (s : String) (o : Overview), parse? s = some o → ∃ opening closing,
      opens opening ∧ closes closing ∧ o.renderChars opening closing <:+: flatten s := by
  constructor
  · intro o opening closing lead text rest s hline hquotes hopening hclosing hlead hrest htext hs
    have hflat : flatten s = lead.map unwrapped ++
        (o.renderChars opening closing ++ rest.map unwrapped) := by
      have hmap : flatten s = s.toList.map unwrapped := rfl
      rw [hmap, hs, List.map_append, List.map_append,
        htext.map_unwrapped (notMem_renderChars hline hopening hclosing), List.append_assoc]
    have hhere := matchHere_renderChars hquotes hopening hclosing
      (fun h => hrest (infix_of_map_unwrapped h))
    have hfound : search matchHere (flatten s) = some o.partsOf := by
      rw [hflat]
      refine search_append hhere fun x hx hsuffix => ?_
      rw [renderChars_append]
      exact matchHere_append_eq_none hx fun h => hlead (h.trans hsuffix.isInfix)
    rw [parse?, hfound]
    simp [partsOf]
  · intro s o h
    obtain ⟨⟨symbol, owner, project, module⟩, hfound, rfl⟩ := Option.map_eq_some_iff.mp h
    obtain ⟨lead, here, hs, hmatch⟩ := search_eq_some hfound
    obtain ⟨opening, closing, rest, hopening, hclosing, hhere⟩ := prefix_of_matchHere hmatch
    refine ⟨opening, closing, hopening, hclosing, lead, rest, ?_⟩
    rw [List.append_assoc, renderChars_append, hs, hhere]
    simp

/-- A symbol that goes on as the message form does, with a line feed for every space. -/
def nested : Overview :=
  ⟨"a) exists!!Canonical \x7b_package = Name \x7b_user = \"b", ⟨"elm-lang", "core"⟩, "Basics"⟩

def brokenLines : List Char :=
  (nested.renderChars '(' ')').map fun c => if c = ' ' then '\n' else c

theorem read_back_nested :
    parse? (String.ofList ("External ".toList ++ brokenLines ++ " \" \x7d".toList)) =
      some nested ∧ brokenLines ≠ nested.renderChars '(' ')' := by
  have htext : Rewraps (nested.renderChars '(' ')') brokenLines := by
    rw [Rewraps, brokenLines, List.forall₂_map_right_iff, List.forall₂_same]
    intro c _
    by_cases hc : c = ' ' <;> simp [hc]
  refine ⟨read_back.1 nested '(' ')' "External ".toList brokenLines " \" \x7d".toList _
    ?_ ?_ rfl rfl ?_ ?_ htext String.toList_ofList, by decide +kernel⟩
  · exact ⟨by decide +kernel, by decide +kernel, by decide +kernel, by decide +kernel⟩
  · exact ⟨by decide +kernel, by decide +kernel, by decide +kernel⟩
  · decide +kernel
  · decide +kernel

end Overview
end UsageGraph
