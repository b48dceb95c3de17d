import UsageGraph.Yaml.Scalar

/-! # Texts in single quotes

* `Yaml.inQuotes`: a text in single quotes, in which every quote is written twice.
* `Yaml.OnOneLine`: nothing in a text ends a line.
* `Yaml.readQuotedScalar_inQuotes`: such a text is read back from its quotes, with all its blanks.
-/

namespace UsageGraph.Yaml
set_option autoImplicit false

/-! ## Writing -/

def doubled (c : Char) : List Char := if c = '\'' then ['\'', '\''] else [c]

def inQuotes (s : List Char) : List Char := '\'' :: (s.flatMap doubled ++ ['\''])

def OnOneLine (s : List Char) : Prop := ∀ c ∈ s, isBreak c = false

theorem exists_doubled (c : Char) : ∃ t, doubled c = c :: t := by
  rw [doubled]
  split
  · next hc => exact ⟨['\''], by rw [hc]⟩
  · exact ⟨[], rfl⟩

theorem doubled_of_isGap {c : Char} (h : isGap c = true) : doubled c = [c] := by
  refine if_neg ?_
  rintro rfl
  exact absurd h (by decide)

theorem flatMap_doubled_of_isGap {s : List Char} (h : ∀ c ∈ s, isGap c = true) :
    s.flatMap doubled = s := by
  induction s with
  | nil => rfl
  | cons c s ih =>
    obtain ⟨hc, hs⟩ := List.forall_mem_cons.mp h
    rw [List.flatMap_cons, doubled_of_isGap hc, ih hs, List.singleton_append]

/-! ## Pieces -/

/-- Where a piece in single quotes comes to its end: at a blank, or at a quote that stands alone. -/
inductive EndsPiece : List Char → Prop where
  | gap {x : Char} (more : List Char) (h : isGap x = true) : EndsPiece (x :: more)
  | quote {more : List Char} (h : more.head? ≠ some '\'') : EndsPiece ('\'' :: more)

section
variable {i l k fuel : Nat} {rest : List Char}

theorem quotedPiece_end (acc : List Char) (h : EndsPiece rest) :
    quotedPiece true (fuel + 1) acc ⟨rest, i, l, k⟩ =
      some (acc.reverse, false, ⟨rest, i, l, k⟩) := by
  cases h with
  | gap more hx => simp [quotedPiece, Cursor.peek, hx]
  | @quote more h =>
    have hgap : isGap '\'' = false := by decide
    have hbreak : isBreak '\'' = false := by decide
    have hnext : more[0]? ≠ some '\'' := by rwa [← List.head?_eq_getElem?]
    simp [quotedPiece, Cursor.peek, Cursor.peekAt, hgap, hbreak, hnext]

theorem quotedPiece_pair (acc tail : List Char) :
    quotedPiece true (fuel + 1) acc ⟨'\'' :: '\'' :: tail, i, l, k⟩ =
      quotedPiece true fuel ('\'' :: acc) ⟨tail, i + 2, l, k + 2⟩ := rfl

theorem quotedPiece_char {x : Char} (acc tail : List Char) (hbreak : isBreak x = false)
    (hgap : isGap x = false) (hquote : x ≠ '\'') :
    quotedPiece true (fuel + 1) acc ⟨x :: tail, i, l, k⟩ =
      quotedPiece true fuel (x :: acc) ⟨tail, i + 1, l, k + 1⟩ := by
  simp [quotedPiece, Cursor.peek, Cursor.skip, hbreak, hgap, hquote]

theorem quotedPiece_doubled {w : List Char} (acc : List Char) (hline : OnOneLine w)
    (hw : ∀ c ∈ w, isGap c = false) (h : EndsPiece rest) (hfuel : w.length < fuel) :
    quotedPiece true fuel acc ⟨w.flatMap doubled ++ rest, i, l, k⟩ =
      some (acc.reverse ++ w, false,
        ⟨rest, i + (w.flatMap doubled).length, l, k + (w.flatMap doubled).length⟩) := by
  induction w generalizing acc fuel i k with
  | nil =>
    obtain ⟨fuel, rfl⟩ := Nat.exists_eq_add_of_le' (show 1 ≤ fuel by omega)
    rw [List.flatMap_nil, List.nil_append, quotedPiece_end acc h, List.append_nil]
    rfl
  | cons c w ih =>
    obtain ⟨hbreak, hlines⟩ := List.forall_mem_cons.mp hline
    obtain ⟨hgap, hgaps⟩ := List.forall_mem_cons.mp hw
    obtain ⟨fuel, rfl⟩ := Nat.exists_eq_add_of_le' (show 1 ≤ fuel by omega)
    have hlater : w.length < fuel := Nat.lt_of_succ_lt_succ hfuel
    rw [List.flatMap_cons, List.append_assoc, List.append_cons acc.reverse c w,
      ← List.reverse_cons, List.length_append, ← Nat.add_assoc, ← Nat.add_assoc]
    by_cases hquote : c = '\''
    · subst hquote
      exact (quotedPiece_pair acc _).trans (ih _ hlines hgaps hlater)
    · have hsingle : doubled c = [c] := if_neg hquote
      rw [hsingle]
      exact (quotedPiece_char acc _ hbreak hgap hquote).trans (ih _ hlines hgaps hlater)

/-! ## Blanks -/

theorem Fold.read_gap {x : Char} (hx : isGap x = true) (tail : List Char) (f : Fold)
    (hf : f.broken = false) : Fold.read 0 (fuel + 1) f ⟨x :: tail, i, l, k⟩ =
      Fold.read 0 fuel { f with blanks := f.blanks ++ [x] } ⟨tail, i + 1, l, k + 1⟩ := by
  simp [Fold.read, Cursor.peek, Cursor.skip, hx, hf]

theorem Fold.read_gaps {b : List Char} (hb : ∀ c ∈ b, isGap c = true)
    (hrest : ∀ x ∈ rest.head?, isGap x = false ∧ isBreak x = false) (f : Fold)
    (hf : f.broken = false) (hfuel : b.length < fuel) :
    Fold.read 0 fuel f ⟨b ++ rest, i, l, k⟩ =
      some ({ f with blanks := f.blanks ++ b }, ⟨rest, i + b.length, l, k + b.length⟩) := by
  induction b generalizing f fuel i k with
  | nil =>
    obtain ⟨fuel, rfl⟩ := Nat.exists_eq_add_of_le' (show 1 ≤ fuel by omega)
    cases rest with
    | nil => simp [Fold.read, Cursor.peek]
    | cons x rest =>
      obtain ⟨hgap, hbreak⟩ := hrest x rfl
      simp [Fold.read, Cursor.peek, hgap, hbreak]
  | cons c b ih =>
    obtain ⟨hc, hb⟩ := List.forall_mem_cons.mp hb
    obtain ⟨fuel, rfl⟩ := Nat.exists_eq_add_of_le' (show 1 ≤ fuel by omega)
    rw [List.cons_append, Fold.read_gap hc _ f hf,
      ih hb { f with blanks := f.blanks ++ [c] } hf (Nat.lt_of_succ_lt_succ hfuel)]
    simp only [List.append_assoc, List.singleton_append, List.length_cons, Nat.add_assoc,
      Nat.add_comm 1]

/-! ## Scalars -/

theorem atDocumentMark_of_pos (c : Cursor) (h : 0 < c.column) : c.atDocumentMark = false := by
  have hcolumn : (c.column == 0) = false := beq_false_of_ne (Nat.ne_of_gt h)
  rw [Cursor.atDocumentMark, Cursor.startsMark, Cursor.startsMark, hcolumn]
  rfl

theorem length_le_doubled (s : List Char) : s.length ≤ (s.flatMap doubled).length := by
  induction s with
  | nil => exact Nat.le_refl _
  | cons c s ih =>
    obtain ⟨t, ht⟩ := exists_doubled c
    rw [List.flatMap_cons, ht, List.length_append, List.length_cons, List.length_cons]
    omega

theorem length_lt_doubled_append (s rest : List Char) :
    s.length < (s.flatMap doubled ++ rest).length + 1 := by
  have hdoubled := length_le_doubled s
  rw [List.length_append]
  omega

theorem readQuotedScalar_of_piece {c c' : Cursor} {piece : List Char} (acc : List Char)
    (hcolumn : 0 < c.column) (hrest : c.rest ≠ [])
    (hpiece : quotedPiece true (c.rest.length + 1) [] c = some (piece, false, c')) :
    readQuotedScalar true (fuel + 1) acc c =
      if c'.at? '\'' then some (acc ++ piece, c'.skip)
      else (Fold.read 0 (c'.rest.length + 1) .none c').bind fun p =>
        readQuotedScalar true fuel (acc ++ piece ++ p.1.text) p.2 := by
  have hmark : ¬(c.atDocumentMark || c.rest.isEmpty) = true := by
    simp [atDocumentMark_of_pos c hcolumn, hrest]
  rw [readQuotedScalar, if_neg hmark, hpiece]
  rfl

section
variable {w : List Char} (acc : List Char) (hline : OnOneLine w)
  (hw : ∀ c ∈ w, isGap c = false) (hk : 0 < k)
include hline hw hk

theorem readQuotedScalar_last (hrest : rest.head? ≠ some '\'') :
    readQuotedScalar true (fuel + 1) acc ⟨w.flatMap doubled ++ '\'' :: rest, i, l, k⟩ =
      some (acc ++ w,
        ⟨rest, i + (w.flatMap doubled).length + 1, l, k + (w.flatMap doubled).length + 1⟩) := by
  have hlength := length_lt_doubled_append w ('\'' :: rest)
  have hpiece := quotedPiece_doubled (i := i) (l := l) (k := k) [] hline hw (.quote hrest) hlength
  rw [readQuotedScalar_of_piece acc hk (by simp) hpiece]
  rfl

theorem readQuotedScalar_next {b tail : List Char} (hb : ∀ c ∈ b, isGap c = true) (hne : b ≠ [])
    (htail : ∀ x ∈ tail.head?, isGap x = false ∧ isBreak x = false) :
    readQuotedScalar true (fuel + 1) acc ⟨w.flatMap doubled ++ (b ++ tail), i, l, k⟩ =
      readQuotedScalar true fuel (acc ++ w ++ b)
        ⟨tail, i + (w.flatMap doubled).length + b.length, l,
          k + (w.flatMap doubled).length + b.length⟩ := by
  obtain ⟨x, b', rfl⟩ := List.exists_cons_of_ne_nil hne
  have hx : isGap x = true := hb x List.mem_cons_self
  have hquote : (x == '\'') = false := by
    refine beq_false_of_ne ?_
    rintro rfl
    exact absurd hx (by decide)
  have hlength := length_lt_doubled_append w (x :: b' ++ tail)
  have hends : EndsPiece (x :: b' ++ tail) := .gap (b' ++ tail) hx
  have hpiece := quotedPiece_doubled (i := i) (l := l) (k := k) [] hline hw hends hlength
  have hlength' : (x :: b').length < (x :: b' ++ tail).length + 1 := by
    rw [List.length_append]
    omega
  have hfold := Fold.read_gaps (i := i + (w.flatMap doubled).length) (l := l)
    (k := k + (w.flatMap doubled).length) hb htail .none rfl hlength'
  rw [readQuotedScalar_of_piece acc hk (by simp) hpiece,
    if_neg (by simp [Cursor.at?, Cursor.peek, hquote]), hfold]
  rfl

end

/-- A text as its first piece, the blanks behind that piece, and what comes behind them. -/
theorem exists_piece (s : List Char) : ∃ w b more, s = w ++ (b ++ more) ∧
    (∀ c ∈ w, isGap c = false) ∧ (∀ c ∈ b, isGap c = true) ∧
    (∀ x ∈ more.head?, isGap x = false) ∧ (b = [] → more = []) := by
  refine ⟨s.takeWhile fun c => !isGap c, (s.dropWhile fun c => !isGap c).takeWhile isGap,
    (s.dropWhile fun c => !isGap c).dropWhile isGap, ?_, ?_, ?_, ?_, ?_⟩
  · rw [List.takeWhile_append_dropWhile, List.takeWhile_append_dropWhile]
  · intro c hc
    simpa using List.all_eq_true.mp List.all_takeWhile c hc
  · exact List.all_eq_true.mp List.all_takeWhile
  · intro x hx
    have hhead := List.head?_dropWhile_not isGap (s.dropWhile fun c => !isGap c)
    rwa [Option.mem_def.mp hx] at hhead
  · intro hnil
    cases hback : s.dropWhile (fun c => !isGap c) with
    | nil => rfl
    | cons x t =>
      have hx : isGap x = true := by
        have hhead := List.head?_dropWhile_not (fun c => !isGap c) s
        rw [hback] at hhead
        simpa using hhead
      rw [hback, List.takeWhile_cons_of_pos hx] at hnil
      cases hnil

/-- The blanks between the pieces are on one line, so they are kept. -/
theorem readQuotedScalar_doubled {s : List Char} (acc : List Char) (hline : OnOneLine s)
    (hrest : rest.head? ≠ some '\'') (hk : 0 < k) (hfuel : s.length < fuel) :
    readQuotedScalar true fuel acc ⟨s.flatMap doubled ++ '\'' :: rest, i, l, k⟩ =
      some (acc ++ s,
        ⟨rest, i + (s.flatMap doubled).length + 1, l, k + (s.flatMap doubled).length + 1⟩) := by
  induction hlength : s.length using Nat.strongRecOn generalizing s acc fuel i k with
  | ind n ih =>
    obtain ⟨fuel, rfl⟩ := Nat.exists_eq_add_of_le' (show 1 ≤ fuel by omega)
    obtain ⟨w, b, more, rfl, hw, hb, hmore, hnil⟩ := exists_piece s
    obtain ⟨hwline, hbackline⟩ := List.forall_mem_append.mp hline
    obtain ⟨-, hmoreline⟩ := List.forall_mem_append.mp hbackline
    by_cases hempty : b = []
    · obtain rfl := hnil hempty
      rw [hempty, List.append_nil, List.append_nil]
      exact readQuotedScalar_last acc hwline hw hk hrest
    · have htail : ∀ x ∈ (more.flatMap doubled ++ '\'' :: rest).head?,
          isGap x = false ∧ isBreak x = false := by
        cases more with
        | nil =>
          rintro x ⟨⟩
          exact ⟨by decide, by decide⟩
        | cons y more =>
          obtain ⟨t, ht⟩ := exists_doubled y
          rw [List.flatMap_cons, ht, List.cons_append, List.cons_append]
          rintro x ⟨⟩
          exact ⟨hmore y rfl, hmoreline y List.mem_cons_self⟩
      have hb1 : 0 < b.length := List.length_pos_iff.mpr hempty
      rw [List.length_append, List.length_append] at hlength hfuel
      rw [List.flatMap_append, List.flatMap_append, flatMap_doubled_of_isGap hb, List.append_assoc,
        List.append_assoc]
      refine (readQuotedScalar_next acc hwline hw hk hb hempty htail).trans ?_
      refine (ih more.length (by omega) _ hmoreline (by omega) (by omega) rfl).trans ?_
      simp only [List.length_append, List.append_assoc, Nat.add_assoc]

end

theorem readQuotedScalar_inQuotes {s rest : List Char} (c : Cursor)
    (h : c.rest = inQuotes s ++ rest) (hline : OnOneLine s) (hrest : rest.head? ≠ some '\'') :
    ∃ c', readQuotedScalar true (c.skip.rest.length + 1) [] c.skip = some (s, c') ∧
      c'.rest = rest ∧ 0 < c'.column := by
  have hskip : c.skip.rest = s.flatMap doubled ++ '\'' :: rest := by
    rw [Cursor.skip, h]
    simp [inQuotes]
  have hlength : s.length < c.skip.rest.length + 1 := by
    rw [hskip]
    exact length_lt_doubled_append s ('\'' :: rest)
  have hread := readQuotedScalar_doubled (i := c.skip.index) (l := c.skip.line) []
    hline hrest (Nat.succ_pos c.column) hlength
  rw [← hskip] at hread
  exact ⟨_, hread, rfl, Nat.succ_pos _⟩

end UsageGraph.Yaml
