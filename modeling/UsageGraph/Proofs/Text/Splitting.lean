import UsageGraph.Text.Blank

/-! # Cutting and trimming

* `Text.stripPrefix?_eq_some`: what is left behind a text in front.
* `Text.splitOnce_append`, `Text.splitOnce_eq_some`: a cut at the first occurrence of a character.
* `Text.splitLast_append`: a cut at the last one.
* `Text.intercalate_splitAll`, `Text.splitAll_intercalate`: cuts at all occurrences, and back.
* `Text.join_concat_injective`: joined names without the separator are told from the last one.
* `Text.trimChars_append`: blanks around a text are taken off, and nothing else.
* `Text.splitAll_append_feed`, `Text.join_splitAll`: the pieces between line feeds.
* `Text.flatMap_linesChars`: lines are read like these pieces.
-/

namespace UsageGraph.Text
set_option autoImplicit false

variable {c : Char}

/-! ## A text in front -/

theorem stripPrefix?_eq_some {p s rest : List Char} :
    stripPrefix? p s = some rest ↔ s = p ++ rest := by
  induction p generalizing s with
  | nil => simp [stripPrefix?]
  | cons c p ih =>
    cases s with
    | nil => simp [stripPrefix?]
    | cons x s =>
      rw [stripPrefix?]
      split
      · next h => simp [h, ih]
      · next h => simp [Ne.symm h]

/-! ## The first cut -/

section
variable {s a b : List Char}

theorem splitOnce_eq_some (h : splitOnce c s = some (a, b)) : s = a ++ c :: b ∧ c ∉ a := by
  induction s generalizing a b with
  | nil => cases h
  | cons x s ih =>
    rw [splitOnce] at h
    split at h
    · next hx =>
      cases h
      exact ⟨congrArg (· :: s) hx, List.not_mem_nil⟩
    · next hx =>
      obtain ⟨p, hp, heq⟩ := Option.map_eq_some_iff.mp h
      obtain ⟨hs, hc⟩ := ih (a := p.1) (b := p.2) hp
      cases heq
      rw [hs, List.mem_cons, not_or]
      exact ⟨rfl, Ne.symm hx, hc⟩

theorem splitOnce_append (h : c ∉ a) (b : List Char) : splitOnce c (a ++ c :: b) = some (a, b) := by
  induction a with
  | nil => rw [List.nil_append, splitOnce, if_pos rfl]
  | cons x a ih =>
    rw [List.mem_cons, not_or] at h
    rw [List.cons_append, splitOnce, if_neg (Ne.symm h.1), ih h.2]
    rfl

theorem splitOnce_eq_none : splitOnce c s = none ↔ c ∉ s := by
  induction s with
  | nil => exact iff_of_true rfl List.not_mem_nil
  | cons x s ih =>
    rw [splitOnce, List.mem_cons, not_or]
    split
    · next hx => exact iff_of_false nofun fun h => h.1 hx.symm
    · next hx => rw [Option.map_eq_none_iff, ih, and_iff_right (Ne.symm hx)]

/-- Where the first parts lack a character, it is found at the same place. -/
theorem append_cons_injective {a' b' : List Char} (ha : c ∉ a) (ha' : c ∉ a')
    (h : a ++ c :: b = a' ++ c :: b') : a = a' ∧ b = b' := by
  have hcut := splitOnce_append ha b
  rw [h, splitOnce_append ha' b', Option.some.injEq, Prod.mk.injEq] at hcut
  exact ⟨hcut.1.symm, hcut.2.symm⟩

end

/-! ## The last cut -/

theorem splitLast_of_notMem {s : List Char} (h : c ∉ s) : splitLast c s = none := by
  induction s with
  | nil => rfl
  | cons x s ih =>
    rw [List.mem_cons, not_or] at h
    rw [splitLast, ih h.2]
    exact if_neg (Ne.symm h.1)

theorem splitLast_append (a : List Char) {b : List Char} (h : c ∉ b) :
    splitLast c (a ++ c :: b) = some (a, b) := by
  induction a with
  | nil => rw [List.nil_append, splitLast, splitLast_of_notMem h, if_pos rfl]
  | cons x a ih => rw [List.cons_append, splitLast, ih]

/-- Where the second parts lack a character, it is found at the same place from behind. -/
theorem append_cons_injective_right {a b a' b' : List Char} (hb : c ∉ b) (hb' : c ∉ b')
    (h : a ++ c :: b = a' ++ c :: b') : a = a' ∧ b = b' := by
  have hcut := splitLast_append a hb
  rw [h, splitLast_append a' hb', Option.some.injEq, Prod.mk.injEq] at hcut
  exact ⟨hcut.1.symm, hcut.2.symm⟩

/-! ## All cuts -/

theorem splitAll_eq_splitOn (c : Char) (s : List Char) : splitAll c s = s.splitOn c := by
  induction s with
  | nil => exact (List.splitOn_nil c).symm
  | cons x s ih =>
    rw [splitAll, List.splitOn_cons_eq_if_modifyHead, ih]
    by_cases hx : x = c
    · rw [if_pos hx, if_pos (beq_iff_eq.mpr hx)]
    · rw [if_neg hx, if_neg (mt beq_iff_eq.mp hx)]
      cases hs : s.splitOn c with
      | nil => exact absurd hs (List.splitOn_ne_nil c s)
      | cons p ps => rfl

theorem splitAll_ne_nil (c : Char) (s : List Char) : splitAll c s ≠ [] := by
  rw [splitAll_eq_splitOn]
  exact List.splitOn_ne_nil c s

theorem splitAll_cons_self (c : Char) (s : List Char) :
    splitAll c (c :: s) = [] :: splitAll c s := by
  rw [splitAll, if_pos rfl]

theorem splitAll_cons_of_ne {x : Char} (h : x ≠ c) {s p : List Char} {ps : List (List Char)}
    (hs : splitAll c s = p :: ps) : splitAll c (x :: s) = (x :: p) :: ps := by
  rw [splitAll, if_neg h, hs]

theorem splitAll_of_notMem {s : List Char} (h : c ∉ s) : splitAll c s = [s] := by
  rw [splitAll_eq_splitOn, List.splitOn_eq_singleton h]

theorem splitAll_append (a b : List Char) :
    splitAll c (a ++ c :: b) = splitAll c a ++ splitAll c b := by
  simp only [splitAll_eq_splitOn, List.splitOn_append_cons_self]

theorem splitAll_append_of_notMem {a : List Char} (h : c ∉ a) (b : List Char) :
    splitAll c (a ++ c :: b) = a :: splitAll c b := by
  rw [splitAll_append, splitAll_of_notMem h, List.singleton_append]

theorem intercalate_splitAll (c : Char) (s : List Char) : [c].intercalate (splitAll c s) = s := by
  rw [splitAll_eq_splitOn, List.intercalate_splitOn]

theorem splitAll_intercalate {ps : List (List Char)} (h : ∀ p ∈ ps, c ∉ p) (hne : ps ≠ []) :
    splitAll c ([c].intercalate ps) = ps := by
  rw [splitAll_eq_splitOn, List.splitOn_intercalate c h hne]

theorem notMem_of_mem_splitAll {s p : List Char} (h : p ∈ splitAll c s) : c ∉ p := by
  induction s generalizing p with
  | nil =>
    rw [List.mem_singleton.mp h]
    exact List.not_mem_nil
  | cons x s ih =>
    obtain ⟨q, qs, hqs⟩ := List.exists_cons_of_ne_nil (splitAll_ne_nil c s)
    by_cases hx : x = c
    · subst hx
      rw [splitAll_cons_self, List.mem_cons] at h
      rcases h with rfl | h
      · exact List.not_mem_nil
      · exact ih h
    · rw [splitAll_cons_of_ne hx hqs, List.mem_cons] at h
      rcases h with rfl | h
      · rw [List.mem_cons, not_or]
        exact ⟨Ne.symm hx, ih (by rw [hqs]; exact List.mem_cons_self)⟩
      · exact ih (by rw [hqs]; exact List.mem_cons_of_mem _ h)

/-- A cut takes nothing away but the character that it is made at. -/
theorem mem_iff_mem_splitAll {x : Char} (hx : x ≠ c) {s : List Char} :
    x ∈ s ↔ ∃ p ∈ splitAll c s, x ∈ p := by
  induction s with
  | nil => simp [splitAll]
  | cons y s ih =>
    obtain ⟨q, qs, hqs⟩ := List.exists_cons_of_ne_nil (splitAll_ne_nil c s)
    rw [List.mem_cons, ih]
    by_cases hy : y = c
    · subst hy
      simp [splitAll_cons_self, hx]
    · simp [splitAll_cons_of_ne hy hqs, hqs, or_assoc]

/-! ## Joined names -/

/-- The names in front of the last one lack the separator, so they are found between its first
occurrences, and the last name is all that is left. -/
theorem join_concat_injective {ps qs : List String} {x y : String}
    (hlength : ps.length = qs.length) (hps : ∀ p ∈ ps, c ∉ p.toList) (hqs : ∀ q ∈ qs, c ∉ q.toList)
    (h : join (String.singleton c) (ps ++ [x]) = join (String.singleton c) (qs ++ [y])) :
    ps = qs ∧ x = y := by
  have hcut : ∀ (p : String) (rest : List String) (z : String),
      (join (String.singleton c) (p :: (rest ++ [z]))).toList =
        p.toList ++ c :: (join (String.singleton c) (rest ++ [z])).toList := by
    intro p rest z
    obtain ⟨next, rest', hrest⟩ := List.exists_cons_of_ne_nil (List.concat_ne_nil z rest)
    rw [hrest, join, join, String.intercalate_cons_cons, String.toList_append,
      String.toList_append, String.toList_singleton, List.append_assoc, List.singleton_append]
  induction ps generalizing qs with
  | nil =>
    rw [List.eq_nil_of_length_eq_zero hlength.symm, List.nil_append, List.nil_append, join, join,
      String.intercalate_singleton, String.intercalate_singleton] at h
    exact ⟨(List.eq_nil_of_length_eq_zero hlength.symm).symm, h⟩
  | cons p ps ih =>
    obtain ⟨q, qs, rfl⟩ := List.exists_cons_of_length_eq_add_one hlength.symm
    obtain ⟨hp, hps⟩ := List.forall_mem_cons.mp hps
    obtain ⟨hq, hqs⟩ := List.forall_mem_cons.mp hqs
    have hchars := congrArg String.toList h
    rw [List.cons_append, List.cons_append, hcut, hcut] at hchars
    obtain ⟨hfirst, hrest⟩ := append_cons_injective hp hq hchars
    obtain ⟨hnames, hlast⟩ :=
      ih (Nat.succ.inj hlength) hps hqs (String.toList_injective hrest)
    exact ⟨by rw [String.toList_injective hfirst, hnames], hlast⟩

/-! ## Trimming -/

theorem dropWhile_append_of_head {p : Char → Bool} {blank s : List Char}
    (hblank : blank.all p = true) (hs : ∀ x ∈ s.head?, p x = false) :
    (blank ++ s).dropWhile p = s := by
  rw [List.dropWhile_append_of_pos (List.all_eq_true.mp hblank)]
  cases s with
  | nil => rfl
  | cons x s => rw [List.dropWhile_cons, hs x rfl, if_neg Bool.false_ne_true]

/-- A text that begins and ends with something else than a blank is what is left of it between
blanks. -/
theorem trimChars_append {before s after : List Char} (hbefore : before.all isBlank = true)
    (hafter : after.all isBlank = true) (hhead : ∀ x ∈ s.head?, isBlank x = false)
    (hlast : ∀ x ∈ s.getLast?, isBlank x = false) (hne : s ≠ []) :
    trimChars (before ++ (s ++ after)) = s := by
  have hstart : trimStart (before ++ (s ++ after)) = s ++ after := by
    refine dropWhile_append_of_head hbefore ?_
    obtain ⟨x, s, rfl⟩ := List.exists_cons_of_ne_nil hne
    exact hhead
  have hafter' : after.reverse.all isBlank = true := by rwa [List.all_reverse]
  rw [trimChars, hstart, trimEnd, List.reverse_append, dropWhile_append_of_head hafter',
    List.reverse_reverse]
  rwa [List.head?_reverse]

/-- What is left between blanks does not begin with one. -/
theorem isBlank_of_head?_trimChars {s : List Char} :
    ∀ x ∈ (trimChars s).head?, isBlank x = false := by
  intro x hx
  obtain ⟨rest, hrest⟩ := List.head?_eq_some_iff.mp hx
  have hprefix : trimChars s <+: trimStart s := by
    have hsuffix := List.reverse_prefix.mpr (List.dropWhile_suffix (l := (trimStart s).reverse)
      isBlank)
    rwa [List.reverse_reverse] at hsuffix
  obtain ⟨after, hafter⟩ := hprefix
  have hstart := List.head?_dropWhile_not isBlank s
  rw [← trimStart, ← hafter, hrest, List.cons_append, List.head?_cons] at hstart
  exact hstart

/-! ## Lines -/

theorem splitAll_append_feed (a b : String) : splitAll '\n' (a ++ "\n" ++ b).toList =
    splitAll '\n' a.toList ++ splitAll '\n' b.toList := by
  have htext : (a ++ "\n" ++ b).toList = a.toList ++ '\n' :: b.toList := by
    rw [String.toList_append, String.toList_append, List.append_assoc]
    rfl
  rw [htext, splitAll_append]

theorem join_splitAll (text : String) :
    join "\n" ((splitAll '\n' text.toList).map String.ofList) = text := by
  apply String.toList_injective
  have hchars : (splitAll '\n' text.toList).map (String.toList ∘ String.ofList) =
      (splitAll '\n' text.toList).map id :=
    List.map_congr_left fun s _ => String.toList_ofList
  rw [join, String.toList_intercalate, List.map_map, hchars, List.map_id]
  exact intercalate_splitAll '\n' text.toList

theorem trimChars_append_blank (s : List Char) {blank : List Char}
    (h : blank.all isBlank = true) : trimChars (s ++ blank) = trimChars s := by
  have hblank : ∀ x ∈ blank, isBlank x = true := List.all_eq_true.mp h
  have hreverse : ∀ x ∈ blank.reverse, isBlank x = true := fun x hx =>
    hblank x (List.mem_reverse.mp hx)
  rw [trimChars, trimChars, trimStart, List.dropWhile_append]
  split
  · next hempty =>
    have hnil : blank.dropWhile isBlank = [] := by
      rw [← List.append_nil blank, List.dropWhile_append_of_pos hblank]
      rfl
    rw [hnil, trimStart, List.isEmpty_iff.mp hempty]
  · rw [trimEnd, List.reverse_append, List.dropWhile_append_of_pos hreverse]
    rfl

theorem trimChars_dropReturn (s : List Char) : trimChars (dropReturn s) = trimChars s := by
  rw [dropReturn]
  split
  · next hlast =>
    obtain ⟨front, rfl⟩ := List.getLast?_eq_some_iff.mp hlast
    rw [List.dropLast_concat, trimChars_append_blank front (by decide)]
  · rfl

/-- What is read line by line, where neither an empty line nor a carriage return counts, is read
between the line feeds. -/
theorem flatMap_linesChars {α : Type} {f : List Char → List α} (hempty : f [] = [])
    (hreturn : ∀ s, f (dropReturn s) = f s) (s : List Char) :
    (linesChars s).flatMap f = (splitAll '\n' s).flatMap f := by
  have hne := splitAll_ne_nil '\n' s
  have hlast : (((splitAll '\n' s).getLast?.filter (· ≠ [])).toList).flatMap f =
      f ((splitAll '\n' s).getLast hne) := by
    rw [List.getLast?_eq_some_getLast hne]
    by_cases hnil : (splitAll '\n' s).getLast hne = []
    · rw [hnil, hempty]
      rfl
    · simp [Option.filter, hnil]
  conv => rhs; rw [← List.dropLast_concat_getLast hne]
  rw [linesChars, List.flatMap_append, hlast, List.flatMap_append, List.flatMap_map,
    List.flatMap_singleton]
  simp only [hreturn]

end UsageGraph.Text
