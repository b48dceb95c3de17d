import UsageGraph.Proofs.Text.Splitting
import UsageGraph.Shell.Run

/-! # Command lines in quotes

* `Shell.quote`, `Shell.commandLine`: a text in single quotes, and several of them as a script.
* `Shell.tokens?_commandLine`: each of the texts is read back as one word.
* `Shell.expand_quotedWord`: these words stand for the texts in every shell.
* `Shell.interpret_commandLine`: the script does what the command does that the first text names,
  with the other ones as its arguments.
* `Shell.interpret_printf`: so every text can be printed by a script.
-/

namespace UsageGraph.Shell
open Text
set_option autoImplicit false

/-! ## Writing -/

/-- A quote ends the quotes, stands behind a backslash, and begins quotes again. -/
def quoteChar (c : Char) : List Char := if c = '\'' then ['\'', '\\', '\'', '\''] else [c]

def quote (text : String) : String :=
  String.ofList ('\'' :: (text.toList.flatMap quoteChar ++ ['\'']))

def commandLine (texts : List String) : String := join " " (texts.map quote)

def quotedPieces (c : Char) : Word :=
  if c = '\'' then [.char '\'' true, .quotes] else [.char c true]

/-- What a text in quotes is read as. -/
def quotedWord (text : String) : Word := .quotes :: text.toList.flatMap quotedPieces

theorem toList_quote (text : String) :
    (quote text).toList = '\'' :: (text.toList.flatMap quoteChar ++ ['\'']) := String.toList_ofList

theorem commandLine_singleton (text : String) : commandLine [text] = quote text := by
  rw [commandLine, List.map_singleton, join, String.intercalate_singleton]

theorem toList_commandLine_cons (text : String) {texts : List String} (h : texts ≠ []) :
    (commandLine (text :: texts)).toList =
      (quote text).toList ++ ' ' :: (commandLine texts).toList := by
  obtain ⟨next, more, rfl⟩ := List.exists_cons_of_ne_nil h
  simp [commandLine, join, String.intercalate_cons_cons]

example : commandLine ["cat", "it's"] = "'cat' 'it'\\''s'" := by decide

/-! ## Words -/

section
variable {p rest : List Char}

/-- A word ends in front of a character that ends words, and at the end of the script. -/
theorem wordFrom_end (fuel : Nat) (h : ∀ c ∈ rest.head?, endsWord c = true) :
    wordFrom fuel rest = some ([], rest) := by
  cases fuel with
  | zero => rw [wordFrom]
  | succ fuel =>
    cases rest with
    | nil =>
      rw [wordFrom]
      exact nofun
    | cons c rest =>
      have hc : endsWord c = true := h c rfl
      rw [wordFrom, if_pos hc]
      all_goals
        intros
        subst_vars
        exact absurd hc (by decide)

theorem wordFrom_quotes (fuel : Nat) (h : '\'' ∉ p) (rest : List Char) :
    wordFrom (fuel + 1) ('\'' :: (p ++ '\'' :: rest)) =
      (wordFrom fuel rest).map (prepend (.quotes :: p.map (Piece.char · true))) := by
  rw [wordFrom, splitOnce_append h]
  rfl

theorem wordFrom_backslash (fuel : Nat) (rest : List Char) :
    wordFrom (fuel + 1) ('\\' :: '\'' :: rest) =
      (wordFrom fuel rest).map (prepend [.char '\'' true]) := by
  rw [wordFrom]
  rfl

/-- The characters `p` have already been passed between the quotes that are open. -/
theorem wordFrom_quoteChar (s : List Char) (hp : '\'' ∉ p)
    (hrest : ∀ c ∈ rest.head?, endsWord c = true) (fuel : Nat)
    (hfuel : (s.flatMap quoteChar).length < fuel) :
    wordFrom fuel ('\'' :: (p ++ (s.flatMap quoteChar ++ '\'' :: rest))) =
      some (.quotes :: (p.map (Piece.char · true) ++ s.flatMap quotedPieces), rest) := by
  induction s generalizing p fuel with
  | nil =>
    obtain ⟨fuel, rfl⟩ := Nat.exists_eq_add_of_lt hfuel
    rw [List.flatMap_nil, List.nil_append, wordFrom_quotes _ hp, wordFrom_end _ hrest]
    simp [prepend]
  | cons c s ih =>
    rw [List.flatMap_cons, List.length_append] at hfuel
    by_cases hc : c = '\''
    · subst hc
      have hquote : quoteChar '\'' = ['\'', '\\', '\'', '\''] := rfl
      rw [hquote, List.length_cons, List.length_cons] at hfuel
      obtain ⟨fuel, rfl⟩ := Nat.exists_eq_add_of_le' (show 2 ≤ fuel by omega)
      have hagain := ih (p := []) List.not_mem_nil fuel (by omega)
      rw [List.nil_append, List.map_nil, List.nil_append] at hagain
      rw [List.flatMap_cons, hquote]
      simp only [List.cons_append, List.nil_append]
      rw [wordFrom_quotes _ hp, wordFrom_backslash, hagain]
      simp [prepend, quotedPieces]
    · have hplain : quoteChar c = [c] := if_neg hc
      have hpieces : quotedPieces c = [.char c true] := if_neg hc
      have hpc : '\'' ∉ p ++ [c] := by
        rw [List.mem_append, List.mem_singleton, not_or]
        exact ⟨hp, Ne.symm hc⟩
      have hnext := ih hpc fuel (by omega)
      rw [List.flatMap_cons, List.flatMap_cons, hplain, hpieces]
      simpa using hnext

end

/-! ## Tokens -/

theorem plainText?_quotedWord (text : String) : plainText? (quotedWord text) = none := by
  simp [quotedWord, plainText?]

theorem tokenOfWord_quotedWord (text : String) (rest : List Char) :
    tokenOfWord (quotedWord text) rest = .word (quotedWord text) := by
  have hplain : (plainText? (quotedWord text)).bind String.toNat? = none := by
    rw [plainText?_quotedWord, Option.bind_none]
  rw [tokenOfWord]
  all_goals
    intro n tail hnumber
    exact nomatch hplain.symm.trans hnumber

theorem operatorAt?_quote (s : List Char) : operatorAt? ('\'' :: s) = none := by
  simp [operatorAt?, operators]

theorem tokensFrom_quote (text : String) (rest : List Char)
    (hrest : ∀ c ∈ rest.head?, endsWord c = true) {fuel : Nat}
    (hfuel : (quote text).toList.length ≤ fuel) :
    tokensFrom (fuel + 1) ((quote text).toList ++ rest) =
      (tokensFrom fuel rest).map (Token.word (quotedWord text) :: ·) := by
  have hchars : (quote text).toList ++ rest =
      '\'' :: (text.toList.flatMap quoteChar ++ '\'' :: rest) := by
    simp [toList_quote]
  have hlength : (text.toList.flatMap quoteChar).length < fuel + 1 := by
    simp only [toList_quote, List.length_cons, List.length_append] at hfuel
    omega
  have hword : wordFrom (fuel + 1) ('\'' :: (text.toList.flatMap quoteChar ++ '\'' :: rest)) =
      some (quotedWord text, rest) :=
    wordFrom_quoteChar text.toList (p := []) List.not_mem_nil hrest _ hlength
  have hnonempty : quotedWord text ≠ [] := List.cons_ne_nil _ _
  rw [hchars, tokensFrom, if_neg (by decide), if_neg (by decide), operatorAt?_quote, hword]
  simp only [Option.bind_eq_bind, Option.bind_some, if_neg hnonempty, tokenOfWord_quotedWord]
  exact Option.map_eq_bind.symm

theorem tokensFrom_nil (fuel : Nat) : tokensFrom fuel [] = some [] := by
  cases fuel with
  | zero => rfl
  | succ fuel => rfl

theorem tokensFrom_commandLine (texts : List String) {fuel : Nat}
    (hfuel : (commandLine texts).toList.length < fuel) :
    tokensFrom fuel (commandLine texts).toList =
      some (texts.map fun text => .word (quotedWord text)) := by
  induction texts generalizing fuel with
  | nil => exact tokensFrom_nil fuel
  | cons text texts ih =>
    have hquote : 0 < (quote text).toList.length := by
      rw [toList_quote]
      exact Nat.succ_pos _
    by_cases hmore : texts = []
    · subst hmore
      rw [commandLine_singleton] at hfuel ⊢
      obtain ⟨fuel, rfl⟩ := Nat.exists_eq_add_of_le' (show 1 ≤ fuel by omega)
      have hstep := tokensFrom_quote text [] nofun (Nat.le_of_lt_succ hfuel)
      rw [List.append_nil] at hstep
      rw [hstep, tokensFrom_nil]
      rfl
    · rw [toList_commandLine_cons text hmore] at hfuel ⊢
      rw [List.length_append, List.length_cons] at hfuel
      obtain ⟨fuel, rfl⟩ := Nat.exists_eq_add_of_le' (show 2 ≤ fuel by omega)
      have hblank : tokensFrom (fuel + 1) (' ' :: (commandLine texts).toList) =
          tokensFrom fuel (commandLine texts).toList := by
        rw [tokensFrom, if_pos (.inl rfl)]
      rw [tokensFrom_quote text _ (by simp; decide) (by omega), hblank, ih (by omega)]
      rfl

theorem tokens?_commandLine (texts : List String) :
    tokens? (commandLine texts) = some (texts.map fun text => .word (quotedWord text)) :=
  tokensFrom_commandLine texts (by rw [String.length_toList]; exact Nat.lt_succ_self _)

/-! ## Scripts -/

namespace Script

theorem simpleFrom_words (ws : List Word) (fuel : Nat) (h : ws.length ≤ fuel) :
    simpleFrom fuel (ws.map Token.word) = ((ws, []), []) := by
  induction ws generalizing fuel with
  | nil =>
    cases fuel with
    | zero => rfl
    | succ fuel => rfl
  | cons w ws ih =>
    obtain ⟨fuel, rfl⟩ := Nat.exists_eq_add_of_le' h
    have hnone : redirection? (Token.word w :: ws.map Token.word) = none := rfl
    rw [List.map_cons, List.length_cons, ← Nat.add_assoc, simpleFrom, hnone]
    simp only [ih _ (Nat.le_add_left _ _)]

theorem ok_bind {α β : Type} (a : α) (f : α → Except String β) :
    (Except.ok a >>= f) = f a := rfl

theorem nextSign_nil : nextSign.run [] = .ok ("", []) := rfl

section
variable {w : Word} (h : plainText? w = none) (ws : List Word) (fuel : Nat)
include h

/-- A word that holds quotes is no word of the language. -/
theorem nextSign_words :
    nextSign.run ((w :: ws).map Token.word) = .ok ("", (w :: ws).map Token.word) := by
  have hsign : signOf (.word w) = "" := by rw [signOf, h, Option.getD_none]
  rw [← hsign]
  rfl

theorem compound_words :
    (compound (fuel + 1)).run ((w :: ws).map Token.word) = .ok (.command (w :: ws) [], []) := by
  have hwords := simpleFrom_words (w :: ws) (((w :: ws).map Token.word).length + 1) (by simp)
  have hsimple : simple.run ((w :: ws).map Token.word) = .ok (.command (w :: ws) [], []) := by
    simp only [simple, StateT.run_bind, StateT.run_get, pure_bind, hwords]
    rfl
  rw [compound, StateT.run_bind, nextSign_words h]
  exact hsimple

theorem logical_words :
    (logical (fuel + 4)).run ((w :: ws).map Token.word) = .ok (.command (w :: ws) [], []) := by
  have hnot : ¬"" = "!" := by decide
  have hbar : ¬"" = "|" := by decide
  have hpipeline : (pipeline (fuel + 3)).run ((w :: ws).map Token.word) =
      .ok (.command (w :: ws) [], []) := by
    rw [pipeline]
    simp only [StateT.run_bind, nextSign_words h, ok_bind, if_neg hnot, compound_words h,
      nextSign_nil, if_neg hbar]
    rfl
  rw [logical, StateT.run_bind, hpipeline]
  rfl

theorem list_words :
    (list (fuel + 5)).run ((w :: ws).map Token.word) = .ok (.command (w :: ws) [], []) := by
  have hskip : (modify skipLines : Reading Unit).run ((w :: ws).map Token.word) =
      .ok ((), (w :: ws).map Token.word) := rfl
  have hgo : ¬(((w :: ws).map Token.word).isEmpty = true ∨ "" ∈ closers) := by
    rw [List.map_cons, List.isEmpty_cons]
    decide
  have hlogical := logical_words h ws fuel
  simp only [list, StateT.run_bind, hskip, ok_bind, pure_bind, StateT.run_get, nextSign_words h,
    if_neg hgo, hlogical, nextSign_nil]
  rfl

end

theorem parse_commandLine (text : String) (texts : List String) :
    parse (commandLine (text :: texts)) =
      .ok (.command ((text :: texts).map quotedWord) []) := by
  have hlist := list_words (plainText?_quotedWord text) (texts.map quotedWord)
    (6 * (text :: texts).length + 1)
  have htokens : ((text :: texts).map fun text => Token.word (quotedWord text)) =
      ((text :: texts).map quotedWord).map Token.word := by
    rw [List.map_map]
    rfl
  rw [parse, tokens?_commandLine, htokens]
  show StateT.run' (script _) _ = _
  rw [List.length_map, List.length_map, script]
  show Prod.fst <$> ((list _).run _ >>= _) = _
  rw [List.map_cons, hlist]
  rfl

end Script

/-! ## Expansion -/

/-- Nothing is brought in, and no character has a special meaning. -/
def Literal (w : Word) : Prop := ∀ piece ∈ w, piece = .quotes ∨ ∃ c, piece = .char c true

def charsOf (w : Word) : List Char :=
  w.filterMap fun
    | .char c _ => some c
    | _ => none

def Piece.mark : Piece → Mark
  | .char c quoted => .char c (!quoted)
  | _ => .field

theorem literal_quotedWord (text : String) : Literal (quotedWord text) := by
  intro piece h
  rcases List.mem_cons.mp h with rfl | h
  · exact .inl rfl
  · obtain ⟨c, -, hc⟩ := List.mem_flatMap.mp h
    rw [quotedPieces] at hc
    split at hc
    · rcases List.mem_cons.mp hc with rfl | hc
      · exact .inr ⟨_, rfl⟩
      · exact .inl (List.mem_singleton.mp hc)
    · exact .inr ⟨c, List.mem_singleton.mp hc⟩

theorem charsOf_quotedPieces (s : List Char) : charsOf (s.flatMap quotedPieces) = s := by
  induction s with
  | nil => rfl
  | cons c s ih =>
    have hone : charsOf (quotedPieces c) = [c] := by
      rw [quotedPieces]
      split
      · next hc => exact congrArg ([·]) hc.symm
      · rfl
    rw [List.flatMap_cons, charsOf, List.filterMap_append, ← charsOf, ← charsOf, hone, ih,
      List.singleton_append]

section
variable {w : Word} (run : Printing) (s : Shell)

theorem wordMarks_literal (h : Literal w) : wordMarks run w s = (w.map Piece.mark, s) := by
  induction w with
  | nil => rfl
  | cons piece w ih =>
    obtain ⟨hpiece, hw⟩ := List.forall_mem_cons.mp h
    have hone : pieceMarks run s piece = ([piece.mark], s) := by
      rcases hpiece with rfl | ⟨c, rfl⟩ <;> rfl
    rw [wordMarks, hone]
    · simp [ih hw]
    · rintro rest - rfl
      rcases hw _ List.mem_cons_self with hp | ⟨c, hp⟩ <;> cases hp

theorem fieldsFrom_literal (h : Literal w) (cs : List PatternChar) :
    fieldsFrom (some cs) (w.map Piece.mark) =
      [cs.reverse ++ (charsOf w).map fun c => (c, false)] := by
  induction w generalizing cs with
  | nil => simp [fieldsFrom, charsOf]
  | cons piece w ih =>
    obtain ⟨hpiece, hw⟩ := List.forall_mem_cons.mp h
    rcases hpiece with rfl | ⟨c, rfl⟩
    · exact ih hw cs
    · refine (ih hw ((c, false) :: cs)).trans ?_
      simp [charsOf]

theorem fieldsOf_quotedWord (text : String) :
    fieldsOf ((quotedWord text).map Piece.mark) = [text.toList.map fun c => (c, false)] := by
  have hpieces : Literal (text.toList.flatMap quotedPieces) :=
    fun piece h => literal_quotedWord text piece (List.mem_cons_of_mem _ h)
  refine (fieldsFrom_literal hpieces []).trans ?_
  rw [charsOf_quotedPieces]
  rfl

theorem matchingPaths_plain (t : FileTree) (cs : List Char) :
    matchingPaths t (cs.map fun c => (c, false)) = [String.ofList cs] := by
  have hplain : (cs.map fun c => (c, false)).any isSpecial = false := by simp [isSpecial]
  rw [matchingPaths, hplain, if_neg Bool.false_ne_true]
  simp [plainOf, Function.comp_def]

/-- No file and no variable changes what stands in quotes. -/
theorem expand_quotedWord (texts : List String) :
    expand run (texts.map quotedWord) s = (texts, s) := by
  induction texts with
  | nil => rfl
  | cons text texts ih =>
    simp only [List.map_cons, expand, wordMarks_literal run s (literal_quotedWord text), ih,
      fieldsOf_quotedWord, List.flatMap_singleton, matchingPaths_plain, String.ofList_toList,
      List.singleton_append]

end

/-! ## Commands -/

theorem splitAssignments_quotedWord (texts : List String) :
    splitAssignments (texts.map quotedWord) = ([], texts.map quotedWord) := by
  cases texts with
  | nil => rfl
  | cons text texts => rfl

theorem command_quotedWord (interpreter : Interpreter) (text : String) (texts : List String)
    (c : Channels) (s : Shell) :
    command interpreter ((text :: texts).map quotedWord) [] c s =
      invoke interpreter (text :: texts) c s := by
  simp only [command, splitAssignments_quotedWord, expand_quotedWord]
  rfl

theorem interpret_commandLine (depth : Nat) (text : String) (texts : List String) (c : Channels)
    (s : Shell) :
    interpret (depth + 1) (commandLine (text :: texts)) c s =
      judged false (invoke (interpret depth) (text :: texts) c s) := by
  rw [interpret, Script.parse_commandLine]
  show Script.run _ _ _ _ _ = _
  rw [Script.run, command_quotedWord]

theorem format_text (text : String) : format "%s" [text] = encode text := by
  have htemplate : "%s".toList = ['%', 's'] := by decide
  have hlength : "%s".length = 2 := by decide
  rw [format, fillAgain, htemplate, hlength]
  simp [fillFrom, Filling.take, convert]

theorem interpret_printf (depth : Nat) (text : String) (c : Channels) (s : Shell) :
    interpret (depth + 1) (commandLine ["printf", "%s", text]) c s =
      (s.writeBytes c.out (encode text)).succeed := by
  have hprint : invoke (interpret depth) ["printf", "%s", text] c s =
      (s.writeBytes c.out (encode text)).succeed := by
    rw [← format_text text]
    rfl
  rw [interpret_commandLine, hprint, judged, if_neg]
  simp [succeed]

end UsageGraph.Shell
