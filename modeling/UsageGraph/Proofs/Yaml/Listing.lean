import UsageGraph.Proofs.Yaml.Scalars
import UsageGraph.Yaml.Node

/-! # Lists of texts

* `Yaml.listing`: texts in single quotes, between brackets and with commas in between.
* `Yaml.Within`: what is known of a lexer inside the brackets. `Yaml.Within.run_succ` and the lemmas
  behind it say what one token does, `Yaml.Within.run_items` what all items do.
* `Yaml.tokens?_listing`, `Yaml.parse?_listing`: a list is read back as its texts.
-/

namespace UsageGraph.Yaml
open Text
set_option autoImplicit false

/-! ## Writing -/

def quote (text : String) : String := String.ofList (inQuotes text.toList)

def listing (texts : List String) : String := "[" ++ join ", " (texts.map quote) ++ "]"

/-- The items behind the first one, as they are written. -/
def moreChars (texts : List String) : List Char :=
  texts.flatMap fun t => ',' :: ' ' :: inQuotes t.toList

def moreTokens (texts : List String) : List Token :=
  texts.flatMap fun t => [.flowEntry, .scalar .singleQuoted t]

/-- The tokens between the brackets. -/
def itemTokens : List String → List Token
  | [] => []
  | t :: texts => .scalar .singleQuoted t :: moreTokens texts

/-- A text on one line, without characters that no YAML text may hold. -/
def Fits (text : String) : Prop :=
  text.toList.all isAllowed = true ∧ OnOneLine text.toList

theorem toList_join_quote (t : String) (texts : List String) :
    (join ", " ((t :: texts).map quote)).toList = inQuotes t.toList ++ moreChars texts := by
  induction texts generalizing t with
  | nil => simp [join, quote, moreChars]
  | cons u texts ih =>
    have hjoin : join ", " ((t :: u :: texts).map quote) =
        quote t ++ ", " ++ join ", " ((u :: texts).map quote) := String.intercalate_cons_cons
    rw [hjoin, String.toList_append, String.toList_append, ih, quote, String.toList_ofList]
    simp [moreChars]

theorem toList_listing_nil : (listing []).toList = ['[', ']'] := by decide

theorem toList_listing_cons (t : String) (texts : List String) : (listing (t :: texts)).toList =
    '[' :: (inQuotes t.toList ++ (moreChars texts ++ [']'])) := by
  have hopen : "[".toList = ['['] := by decide
  have hclose : "]".toList = [']'] := by decide
  rw [listing, String.toList_append, String.toList_append, toList_join_quote, hopen, hclose,
    List.append_assoc, List.append_assoc, List.singleton_append]

theorem length_le_moreChars (texts : List String) :
    2 * texts.length ≤ (moreChars texts).length := by
  induction texts with
  | nil => exact Nat.le_refl _
  | cons t texts ih =>
    rw [moreChars, List.flatMap_cons, ← moreChars, List.length_append, List.length_cons,
      List.length_cons, List.length_cons]
    omega

theorem length_le_itemTokens (texts : List String) : texts.length ≤ (itemTokens texts).length := by
  cases texts with
  | nil => exact Nat.zero_le _
  | cons t texts =>
    have hmore : texts.length ≤ (moreTokens texts).length := by
      induction texts with
      | nil => exact Nat.zero_le _
      | cons u texts ih => exact Nat.le_succ_of_le (Nat.succ_le_succ ih)
    exact Nat.succ_le_succ hmore

/-- The item behind a comma does not go on the item in front of it. -/
theorem head?_moreChars (texts : List String) (rest : List Char) :
    (moreChars texts ++ ']' :: rest).head? ≠ some '\'' := by
  cases texts <;> simp [moreChars]

theorem all_isAllowed_inQuotes {s : List Char} (h : s.all isAllowed = true) :
    (inQuotes s).all isAllowed = true := by
  have hquote : isAllowed '\'' = true := by decide
  have hdoubled : ∀ c ∈ s, (doubled c).all isAllowed = true := by
    intro c hc
    rw [doubled]
    split
    · decide
    · simp [List.all_eq_true.mp h c hc]
  simp [inQuotes, List.all_flatMap, hquote, List.all_eq_true.mpr hdoubled]

theorem all_isAllowed_listing {texts : List String} (h : ∀ t ∈ texts, Fits t) :
    (listing texts).toList.all isAllowed = true := by
  cases texts with
  | nil =>
    rw [toList_listing_nil]
    decide
  | cons t texts =>
    obtain ⟨ht, htexts⟩ := List.forall_mem_cons.mp h
    have hmore : (moreChars texts).all isAllowed = true := by
      rw [moreChars, List.all_flatMap, List.all_eq_true]
      intro u hu
      rw [List.all_cons, List.all_cons, all_isAllowed_inQuotes (htexts u hu).1]
      decide
    rw [toList_listing_cons, List.all_cons, List.all_append, List.all_append,
      all_isAllowed_inQuotes ht.1, hmore]
    decide

/-! ## Brackets -/

def NotRequired (p : Option PossibleKey) : Prop := ∀ k ∈ p, k.required = false

/-- Inside one pair of brackets, with `ts` as the tokens so far and `rest` as what is to be read. -/
structure Within (l : Lexer) (rest : List Char) (ts : List Token) : Prop where
  rest_eq : l.cursor.rest = rest
  reversed_eq : l.reversed = ts
  flow_eq : l.flow = 1
  indent_eq : l.indent = -1
  outer_eq : l.outer = []
  column_pos : 0 < l.cursor.column
  possible : NotRequired l.possible
  outerPossible : ∃ p, l.outerPossible = [p] ∧ NotRequired p

section
variable {l : Lexer} {rest : List Char} {ts : List Token}

theorem dropStale_of_notRequired (c : Cursor) {p : Option PossibleKey} (h : NotRequired p) :
    ∃ q, Lexer.dropStale c p = some q ∧ NotRequired q := by
  cases p with
  | none => exact ⟨none, rfl, nofun⟩
  | some k =>
    rw [Lexer.dropStale, h k rfl]
    split
    · exact ⟨none, rfl, nofun⟩
    · exact ⟨some k, rfl, h⟩

theorem forgetKey_of_notRequired (h : NotRequired l.possible) :
    l.forgetKey = some { l with possible := none } := by
  have hno : l.possible.any PossibleKey.required = false := by
    cases hp : l.possible with
    | none => rfl
    | some k => exact h k hp
  rw [Lexer.forgetKey, hno, if_neg Bool.false_ne_true]

namespace Within

theorem dropAllStale (h : Within l rest ts) :
    ∃ l', l.dropAllStale = some l' ∧ Within l' rest ts := by
  obtain ⟨p, hp, hpr⟩ := h.outerPossible
  obtain ⟨q, hq, hqr⟩ := dropStale_of_notRequired l.cursor hpr
  obtain ⟨r, hr, hrr⟩ := dropStale_of_notRequired l.cursor h.possible
  refine ⟨{ l with possible := r, outerPossible := [q] }, ?_, ?_⟩
  · simp [Lexer.dropAllStale, hr, hp, hq]
  · exact { h with possible := hrr, outerPossible := ⟨q, rfl, hqr⟩ }

theorem closeTo (h : Within l rest ts) (column : Int) : l.closeTo column = l := by
  rw [Lexer.closeTo, h.flow_eq, if_neg Nat.one_ne_zero]

theorem noteKey (h : Within l rest ts) :
    ∃ l', l.noteKey = some l' ∧ l'.cursor = l.cursor ∧ Within l' rest ts := by
  rw [Lexer.noteKey]
  split
  · rw [forgetKey_of_notRequired h.possible]
    refine ⟨_, rfl, rfl, { h with possible := ?_ }⟩
    rintro k ⟨⟩
    simp [h.flow_eq]
  · exact ⟨l, rfl, rfl, h⟩

theorem skipToToken {x : Char} (blank : List Char) (h : Within l (blank ++ x :: rest) ts)
    (hblank : ∀ c ∈ blank, c = ' ') (hx : x ≠ ' ' ∧ x ≠ '\t' ∧ x ≠ '#') (hbreak : isBreak x = false)
    (fuel : Nat) : Within (Lexer.skipToToken (fuel + 1) l) (x :: rest) ts := by
  have hcolumn : ¬(l.cursor.column = 0 ∧ l.cursor.at? byteOrderMark = true) :=
    fun hc => Nat.ne_of_gt h.column_pos hc.1
  have hskip : ∀ tabs : Bool, l.cursor.skipWhile (fun y => y == ' ' || (tabs && y == '\t')) =
      l.cursor.skipMany blank.length := by
    intro tabs
    have hfront : l.cursor.rest.takeWhile (fun y => y == ' ' || (tabs && y == '\t')) = blank := by
      rw [h.rest_eq, List.takeWhile_append_of_pos, List.takeWhile_cons_of_neg, List.append_nil]
      · simp [hx]
      · intro c hc
        simp [hblank c hc]
    rw [Cursor.skipWhile, Cursor.takeWhile, hfront]
  have hrest : (l.cursor.skipMany blank.length).rest = x :: rest := by
    rw [Cursor.skipMany, h.rest_eq, List.drop_left]
  have hpeek : (l.cursor.skipMany blank.length).peek = some x := by
    rw [Cursor.peek, hrest]
    rfl
  have hhash : (l.cursor.skipMany blank.length).at? '#' = false := by
    simp [Cursor.at?, hpeek, hx]
  rw [Lexer.skipToToken]
  simp only [if_neg hcolumn, hskip, hhash, Bool.false_eq_true, if_false, hpeek, Option.any_some,
    hbreak]
  exact { h with
    rest_eq := hrest
    column_pos := Nat.lt_of_lt_of_le h.column_pos (Nat.le_add_right _ _) }

/-- The next token starts with `x`, perhaps behind spaces. -/
theorem run_succ {x : Char} (blank : List Char) (h : Within l (blank ++ x :: rest) ts)
    (hblank : ∀ c ∈ blank, c = ' ') (hx : x ≠ ' ' ∧ x ≠ '\t' ∧ x ≠ '#') (hbreak : isBreak x = false) :
    ∃ l', Within l' (x :: rest) ts ∧
      ∀ fuel, Lexer.run (fuel + 1) l = (l'.tokenAt x).bind (Lexer.run fuel) := by
  have hskipped := h.skipToToken blank hblank hx hbreak l.cursor.rest.length
  obtain ⟨l', hl', hwithin⟩ := hskipped.dropAllStale
  refine ⟨l', hwithin, fun fuel => ?_⟩
  have hpeek : l'.cursor.peek = some x := by
    rw [Cursor.peek, hwithin.rest_eq]
    rfl
  rw [Lexer.run, hl']
  simp [hwithin.closeTo, hpeek]

theorem startsMark (h : Within l rest ts) (x : Char) : l.cursor.startsMark x = false := by
  rw [Cursor.startsMark, beq_false_of_ne (Nat.ne_of_gt h.column_pos)]
  rfl

/-! ## Tokens within brackets -/

theorem tokenAt_comma (h : Within l (',' :: rest) ts) :
    ∃ l', l.tokenAt ',' = some l' ∧ Within l' rest (.flowEntry :: ts) := by
  have hforget := forgetKey_of_notRequired h.possible
  refine ⟨(({ l with possible := none } : Lexer).allowKey true).indicator 1 .flowEntry, ?_, ?_⟩
  · have htoken : l.tokenAt ',' = l.flowComma := by simp [Lexer.tokenAt, h.startsMark]
    rw [htoken, Lexer.flowComma, hforget]
    rfl
  · exact {
      rest_eq := congrArg (List.drop 1) h.rest_eq
      reversed_eq := congrArg (Token.flowEntry :: ·) h.reversed_eq
      flow_eq := h.flow_eq
      indent_eq := h.indent_eq
      outer_eq := h.outer_eq
      column_pos := Nat.succ_pos _
      possible := nofun
      outerPossible := h.outerPossible }

theorem tokenAt_quote {s : List Char} (h : Within l (inQuotes s ++ rest) ts) (hline : OnOneLine s)
    (hrest : rest.head? ≠ some '\'') :
    ∃ l', l.tokenAt '\'' = some l' ∧
      Within l' rest (.scalar .singleQuoted (String.ofList s) :: ts) := by
  obtain ⟨l', hl', hcursor, hwithin⟩ := h.noteKey
  obtain ⟨c, hread, hc, hcolumn⟩ :=
    readQuotedScalar_inQuotes l'.cursor hwithin.rest_eq hline hrest
  have htoken : l.tokenAt '\'' = l.quotedScalar true := by simp [Lexer.tokenAt, h.startsMark]
  refine ⟨((l'.allowKey false).moveTo c).push (.scalar .singleQuoted (String.ofList s)), ?_, ?_⟩
  · rw [htoken, Lexer.quotedScalar, hl']
    simp [hread]
  · exact { hwithin with
      rest_eq := hc
      reversed_eq := congrArg (Token.scalar .singleQuoted (String.ofList s) :: ·)
        hwithin.reversed_eq
      column_pos := hcolumn }

theorem run_items (texts : List String) (hline : ∀ t ∈ texts, OnOneLine t.toList)
    (h : Within l (moreChars texts ++ ']' :: rest) ts) :
    ∃ l', Within l' (']' :: rest) ((moreTokens texts).reverse ++ ts) ∧
      ∀ fuel, Lexer.run (2 * texts.length + fuel) l = Lexer.run fuel l' := by
  induction texts generalizing l ts with
  | nil => exact ⟨l, h, fun fuel => by rw [List.length_nil, Nat.mul_zero, Nat.zero_add]⟩
  | cons t texts ih =>
    obtain ⟨ht, htexts⟩ := List.forall_mem_cons.mp hline
    have hchars : moreChars (t :: texts) ++ ']' :: rest =
        ',' :: ([' '] ++ (inQuotes t.toList ++ (moreChars texts ++ ']' :: rest))) := by
      simp [moreChars]
    rw [hchars] at h
    obtain ⟨l1, h1, hrun1⟩ := h.run_succ [] nofun (by decide) (by decide)
    obtain ⟨l2, hcomma, h2⟩ := h1.tokenAt_comma
    obtain ⟨l3, h3, hrun3⟩ := h2.run_succ [' '] (by simp) (by decide) (by decide)
    obtain ⟨l4, hquoted, h4⟩ := h3.tokenAt_quote ht (head?_moreChars texts rest)
    obtain ⟨l', hl', hrun⟩ := ih htexts h4
    refine ⟨l', ?_, fun fuel => ?_⟩
    · simpa [moreTokens] using hl'
    · have hfuel : 2 * (t :: texts).length + fuel = 2 * texts.length + fuel + 1 + 1 := by
        rw [List.length_cons]
        omega
      rw [hfuel, hrun1, hcomma, Option.bind_some, hrun3, hquoted, Option.bind_some, hrun]

end Within

/-- Nothing is left to be read, and no bracket or block is open. -/
theorem run_end (hrest : l.cursor.rest = []) (hflow : l.flow = 0) (hindent : l.indent = -1)
    (houter : l.outer = []) (hpossible : NotRequired l.possible) (houters : l.outerPossible = [])
    (fuel : Nat) : ∃ l', Lexer.run (fuel + 1) l = some l' ∧ l'.reversed = l.reversed := by
  obtain ⟨c, flow, indent, outer, keyAllowed, possible, outerPossible, reversed⟩ := l
  obtain ⟨cs, i, line, k⟩ := c
  dsimp only at hrest hflow hindent houter houters
  subst hrest hflow hindent houter houters
  obtain ⟨p, hp, hpr⟩ := dropStale_of_notRequired ⟨[], i, line, k⟩ hpossible
  have hforget := forgetKey_of_notRequired
    (l := ⟨⟨[], i, line, k⟩, 0, -1, [], keyAllowed, p, [], reversed⟩) hpr
  dsimp only at hp
  simp [Lexer.run, Lexer.skipToToken, Cursor.at?, Cursor.peek, Cursor.skipWhile, Cursor.takeWhile,
    Cursor.skipMany, Lexer.moveTo, Lexer.dropAllStale, hp, Lexer.closeTo, Lexer.closeBlocks,
    Lexer.finish, hforget]

/-- Behind the brackets, with the possible key that was noted in front of them. -/
def closed (l : Lexer) (p : Option PossibleKey) : Lexer :=
  (({ l with flow := 0, possible := p, outerPossible := [] } : Lexer).allowKey false).indicator 1
    .flowSequenceEnd

theorem Within.run_close (h : Within l [']'] ts) (fuel : Nat) :
    ∃ l', Lexer.run (fuel + 2) l = some l' ∧ l'.reversed = .flowSequenceEnd :: ts := by
  have h0 : Within l ([] ++ ']' :: []) ts := h
  obtain ⟨l1, h1, hrun1⟩ := h0.run_succ [] nofun (by decide) (by decide)
  obtain ⟨p, hp, hpr⟩ := h1.outerPossible
  have htoken : l1.tokenAt ']' = some (closed l1 p) := by
    have hbracket : l1.tokenAt ']' = l1.closeBracket .flowSequenceEnd := by
      simp [Lexer.tokenAt, h1.startsMark]
    rw [hbracket, Lexer.closeBracket, forgetKey_of_notRequired h1.possible]
    simp [closed, hp, h1.flow_eq]
  have hrest : (closed l1 p).cursor.rest = [] := congrArg (List.drop 1) h1.rest_eq
  have hreversed : (closed l1 p).reversed = .flowSequenceEnd :: ts :=
    congrArg (Token.flowSequenceEnd :: ·) h1.reversed_eq
  obtain ⟨l', hl', hsame⟩ := run_end hrest rfl h1.indent_eq h1.outer_eq hpr rfl fuel
  exact ⟨l', by rw [hrun1, htoken, Option.bind_some, hl'], hsame.trans hreversed⟩

/-- A list is open, which has been noted as a possible key. -/
def opened (rest : List Char) : Lexer where
  cursor := ⟨rest, 1, 0, 1⟩
  flow := 1
  indent := -1
  outer := []
  keyAllowed := true
  possible := none
  outerPossible := [some ⟨false, 0, 0, 0, 0⟩]
  reversed := [.flowSequenceStart]

theorem within_opened (rest : List Char) : Within (opened rest) rest [.flowSequenceStart] where
  rest_eq := rfl
  reversed_eq := rfl
  flow_eq := rfl
  indent_eq := rfl
  outer_eq := rfl
  column_pos := Nat.one_pos
  possible := nofun
  outerPossible := ⟨_, rfl, by rintro k ⟨⟩; rfl⟩

theorem run_ofText (rest : List Char) (fuel : Nat) :
    Lexer.run (fuel + 1) (.ofText ('[' :: rest)) = Lexer.run fuel (opened rest) := by
  rfl

end

theorem tokens?_listing {texts : List String} (h : ∀ t ∈ texts, Fits t) :
    tokens? (listing texts) =
      some (.flowSequenceStart :: (itemTokens texts ++ [.flowSequenceEnd])) := by
  have hline : ∀ t ∈ texts, OnOneLine t.toList := fun t ht => (h t ht).2
  suffices hrun : ∃ l, Lexer.run ((listing texts).toList.length + 1)
      (.ofText (listing texts).toList) = some l ∧
        l.reversed = .flowSequenceEnd :: ((itemTokens texts).reverse ++ [.flowSequenceStart]) by
    obtain ⟨l, hl, hreversed⟩ := hrun
    rw [tokens?, if_pos (all_isAllowed_listing h), hl]
    simp [hreversed]
  cases texts with
  | nil =>
    have hfuel : ['[', ']'].length + 1 = 0 + 2 + 1 := rfl
    rw [toList_listing_nil, hfuel, run_ofText]
    exact (within_opened [']']).run_close 0
  | cons t texts =>
    obtain ⟨ht, htexts⟩ := List.forall_mem_cons.mp hline
    have h0 := within_opened ([] ++ (inQuotes t.toList ++ (moreChars texts ++ [']'])))
    obtain ⟨l1, h1, hrun1⟩ := h0.run_succ [] nofun (by decide) (by decide)
    obtain ⟨l2, hquoted, h2⟩ := h1.tokenAt_quote ht (head?_moreChars texts [])
    obtain ⟨l3, h3, hrun3⟩ := h2.run_items texts htexts
    have hlong : 2 * texts.length + 3 ≤ (listing (t :: texts)).toList.length := by
      have hmore := length_le_moreChars texts
      rw [toList_listing_cons, List.length_cons, List.length_append, List.length_append, inQuotes,
        List.length_cons, List.length_singleton]
      omega
    obtain ⟨fuel, hfuel⟩ := Nat.exists_eq_add_of_le' hlong
    have hsteps : fuel + (2 * texts.length + 3) + 1 =
        2 * texts.length + (fuel + 2) + 1 + 1 := by omega
    obtain ⟨l4, hl4, hreversed⟩ := h3.run_close fuel
    rw [List.nil_append] at hrun1
    refine ⟨l4, ?_, hreversed.trans ?_⟩
    · rw [hfuel, hsteps, toList_listing_cons, run_ofText, hrun1, hquoted, Option.bind_some, hrun3,
        hl4]
    · simp [itemTokens]

/-! ## Nodes -/

def quotedNode (t : String) : Node := .scalar none .singleQuoted t

namespace Compose
variable (anchors : List (String × Nat)) (targets : List (Nat × Node))
  (handles : List (String × String))

theorem flowItems_first (t : String) (rest : List Token) (fuel : Nat) :
    (flowItems true (fuel + 3)).run
        ⟨.scalar .singleQuoted t :: rest, anchors, targets, handles⟩ =
      ((flowItems false (fuel + 2)).run ⟨rest, anchors, targets, handles⟩).bind fun p =>
        some (quotedNode t :: p.1, p.2) := by
  rfl

theorem flowItems_next (t : String) (rest : List Token) (fuel : Nat) :
    (flowItems false (fuel + 3)).run
        ⟨.flowEntry :: .scalar .singleQuoted t :: rest, anchors, targets, handles⟩ =
      ((flowItems false (fuel + 2)).run ⟨rest, anchors, targets, handles⟩).bind fun p =>
        some (quotedNode t :: p.1, p.2) := by
  rfl

theorem flowItems_quoted (texts : List String) (rest : List Token) (fuel : Nat)
    (hfuel : texts.length + 2 < fuel) :
    (flowItems false fuel).run
        ⟨moreTokens texts ++ .flowSequenceEnd :: rest, anchors, targets, handles⟩ =
      some (texts.map quotedNode, ⟨rest, anchors, targets, handles⟩) := by
  induction texts generalizing fuel with
  | nil =>
    obtain ⟨fuel, rfl⟩ := Nat.exists_eq_add_of_le' (show 1 ≤ fuel by omega)
    rfl
  | cons t texts ih =>
    rw [List.length_cons] at hfuel
    obtain ⟨fuel, rfl⟩ := Nat.exists_eq_add_of_le' (show 3 ≤ fuel by omega)
    rw [moreTokens, List.flatMap_cons, ← moreTokens, List.append_assoc, List.cons_append,
      List.cons_append, List.nil_append, flowItems_next, ih (fuel + 2) (by omega)]
    rfl

theorem flowItems_listing (texts : List String) (fuel : Nat) (hfuel : texts.length + 2 < fuel) :
    (flowItems true fuel).run
        ⟨itemTokens texts ++ [.flowSequenceEnd], anchors, targets, handles⟩ =
      some (texts.map quotedNode, ⟨[], anchors, targets, handles⟩) := by
  cases texts with
  | nil =>
    obtain ⟨fuel, rfl⟩ := Nat.exists_eq_add_of_le' (show 1 ≤ fuel by omega)
    rfl
  | cons t texts =>
    rw [List.length_cons] at hfuel
    obtain ⟨fuel, rfl⟩ := Nat.exists_eq_add_of_le' (show 3 ≤ fuel by omega)
    rw [itemTokens, List.cons_append, flowItems_first,
      flowItems_quoted anchors targets handles texts [] _ (by omega)]
    rfl

theorem document_list (rest : List Token) (fuel : Nat) (items : List Node)
    (h : (flowItems true (fuel + 1)).run ⟨rest, anchors, targets, handles⟩ =
      some (items, ⟨[], anchors, targets, handles⟩)) :
    (document (fuel + 3)).run ⟨.flowSequenceStart :: rest, anchors, targets, handles⟩ =
      some (.list none items, ⟨[], anchors, targets, handles⟩) := by
  have hcontent : (content true false false none (fuel + 2)).run
      ⟨.flowSequenceStart :: rest, anchors, targets, handles⟩ =
        some (.list none items, ⟨[], anchors, targets, handles⟩) := by
    show ((flowItems true (fuel + 1)).run ⟨rest, anchors, targets, handles⟩).bind _ = _
    rw [h]
    rfl
  have hnode : (node true false (fuel + 3)).run
      ⟨.flowSequenceStart :: rest, anchors, targets, handles⟩ =
        some (.list none items, ⟨[], anchors, targets, handles⟩) := by
    show ((content true false false none (fuel + 2)).run _).bind _ = _
    rw [hcontent]
    rfl
  show ((node true false (fuel + 3)).run _).bind _ = _
  rw [hnode]
  rfl

end Compose

theorem parse?_listing {texts : List String} (h : ∀ t ∈ texts, Fits t) :
    Stream.parse? (listing texts) = some ⟨some (.list none (texts.map quotedNode)), []⟩ := by
  have hlength := length_le_itemTokens texts
  have hitems := Compose.flowItems_listing [] [] Compose.standardHandles texts
    (4 * (itemTokens texts).length + 14) (by omega)
  have hdocument := Compose.document_list [] [] Compose.standardHandles _ _ _ hitems
  have hfuel : 4 * (Token.flowSequenceStart :: (itemTokens texts ++ [.flowSequenceEnd])).length + 8 =
      4 * (itemTokens texts).length + 13 + 3 := by
    rw [List.length_cons, List.length_append, List.length_singleton]
    omega
  rw [Stream.parse?, tokens?_listing h, Option.bind_eq_bind, Option.bind_some,
    if_neg (List.cons_ne_nil _ _), hfuel]
  simp only [hdocument]
  rfl

end UsageGraph.Yaml
