import UsageGraph.Text.Blank
import UsageGraph.Text.WordChar

/-! # Words of a shell script

A script is a sequence of words and operators. Within a word, quotes and backslashes take the special
meaning from what they stand around, and a dollar sign or a backquote brings in a text that is known
only when the word is used.

* `Piece`, `Word`: a word as what it is made of.
* `Token`: a word, an operator, or the number in front of a redirection.
* `tokens?`: the tokens of a script, if all its quotes are closed.
-/

namespace UsageGraph.Shell
open Text
set_option autoImplicit false

inductive Piece where
  | char (c : Char) (quoted : Bool)
  /-- The value of a parameter. -/
  | parameter (name : String) (quoted : Bool)
  /-- What a script prints. -/
  | printed (script : String) (quoted : Bool)
  /-- A pair of quotes, which makes a word even with nothing in between. -/
  | quotes
  deriving DecidableEq, Repr

abbrev Word := List Piece

inductive Token where
  | word (w : Word)
  | operator (s : String)
  | number (n : Nat)
  deriving DecidableEq, Repr

/-! ## Characters -/

def isNameStart (c : Char) : Bool := isAsciiLetter c || c == '_'
def isNameChar (c : Char) : Bool := isNameStart c || isAsciiDigit c

/-- Ends a word where it stands outside quotes. -/
def endsWord (c : Char) : Bool := c ∈ [' ', '\t', '\n', ';', '&', '|', '<', '>', '(', ')']

/-- The parameters that are named by one sign. -/
def isSign (c : Char) : Bool := c ∈ ['@', '*', '#', '?', '$', '!', '-']

/-- Longer operators come before those that they start with. -/
def operators : List String :=
  ["&&", "||", ";;", ">>", ">&", ">|", "<&", "<<", "<>", ";", "&", "|", "(", ")", "<", ">", "\n"]

/-! ## Pieces -/

/-- The script up to the bracket that closes it, with `depth` brackets open inside. -/
def closing : Nat → List Char → Option (List Char × List Char)
  | _, [] => none
  | 0, ')' :: rest => some ([], rest)
  | depth + 1, ')' :: rest => (closing depth rest).map fun p => (')' :: p.1, p.2)
  | depth, '(' :: rest => (closing (depth + 1) rest).map fun p => ('(' :: p.1, p.2)
  | depth, c :: rest => (closing depth rest).map fun p => (c :: p.1, p.2)

/-- What a dollar sign stands for, from what comes after it. -/
def dollar (quoted : Bool) : List Char → Option (Piece × List Char)
  | [] => some (.char '$' quoted, [])
  | '(' :: rest => (closing 0 rest).map fun p => (.printed (String.ofList p.1) quoted, p.2)
  | '{' :: rest => (splitOnce '}' rest).map fun p => (.parameter (String.ofList p.1) quoted, p.2)
  | c :: rest =>
    if isSign c || isAsciiDigit c then some (.parameter (String.ofList [c]) quoted, rest)
    else if isNameStart c then
      some (.parameter (String.ofList ((c :: rest).takeWhile isNameChar)) quoted,
        (c :: rest).dropWhile isNameChar)
    else some (.char '$' quoted, c :: rest)

def backquote (quoted : Bool) (s : List Char) : Option (Piece × List Char) :=
  (splitOnce '\x60' s).map fun p => (.printed (String.ofList p.1) quoted, p.2)

/-- A backslash within double quotes has a meaning only in front of a few characters. -/
def escapedInQuotes (c : Char) : Word :=
  if c = '\n' then []
  else if c ∈ ['$', '\x60', '"', '\\'] then [.char c true]
  else [.char '\\' true, .char c true]

def escaped (c : Char) : Word := if c = '\n' then [] else [.char c true]

def prepend {α β : Type} (front : List α) (p : List α × β) : List α × β := (front ++ p.1, p.2)

/-- The pieces up to the closing double quote; the text is no longer than `fuel`. -/
def doubleQuoted : Nat → List Char → Option (Word × List Char)
  | 0, _ => none
  | _, [] => none
  | _ + 1, '"' :: rest => some ([], rest)
  | fuel + 1, '\\' :: c :: rest => (doubleQuoted fuel rest).map (prepend (escapedInQuotes c))
  | fuel + 1, '$' :: rest => do
    let (piece, rest) ← dollar true rest
    (doubleQuoted fuel rest).map (prepend [piece])
  | fuel + 1, '\x60' :: rest => do
    let (piece, rest) ← backquote true rest
    (doubleQuoted fuel rest).map (prepend [piece])
  | fuel + 1, c :: rest => (doubleQuoted fuel rest).map (prepend [.char c true])

/-- The pieces of a word, and what comes after it. -/
def wordFrom : Nat → List Char → Option (Word × List Char)
  | 0, s => some ([], s)
  | _, [] => some ([], [])
  | fuel + 1, '\'' :: rest => do
    let (inside, rest) ← splitOnce '\'' rest
    (wordFrom fuel rest).map (prepend (.quotes :: inside.map fun c => .char c true))
  | fuel + 1, '"' :: rest => do
    let (inside, rest) ← doubleQuoted fuel rest
    (wordFrom fuel rest).map (prepend (.quotes :: inside))
  | fuel + 1, '\\' :: c :: rest => (wordFrom fuel rest).map (prepend (escaped c))
  | fuel + 1, '$' :: rest => do
    let (piece, rest) ← dollar false rest
    (wordFrom fuel rest).map (prepend [piece])
  | fuel + 1, '\x60' :: rest => do
    let (piece, rest) ← backquote false rest
    (wordFrom fuel rest).map (prepend [piece])
  | fuel + 1, c :: rest =>
    if endsWord c then some ([], c :: rest)
    else (wordFrom fuel rest).map (prepend [.char c false])

/-! ## Tokens -/

/-- The text of a word without any special meaning. -/
def plainText? (w : Word) : Option String :=
  (w.mapM fun (piece : Piece) => match piece with
    | .char c false => some c
    | _ => none).map String.ofList

/-- A number right in front of a redirection belongs to it. -/
def tokenOfWord (w : Word) (rest : List Char) : Token :=
  match (plainText? w).bind String.toNat?, rest with
  | some n, '<' :: _ => .number n
  | some n, '>' :: _ => .number n
  | _, _ => .word w

def operatorAt? (s : List Char) : Option String :=
  operators.find? fun op => op.toList.isPrefixOf s

def tokensFrom : Nat → List Char → Option (List Token)
  | 0, _ => some []
  | _, [] => some []
  | fuel + 1, c :: rest =>
    if c = ' ' ∨ c = '\t' then tokensFrom fuel rest
    else if c = '#' then tokensFrom fuel (rest.dropWhile (· ≠ '\n'))
    else
      match operatorAt? (c :: rest) with
      | some op => (tokensFrom fuel ((c :: rest).drop op.length)).map (.operator op :: ·)
      | none => do
        let (w, rest) ← wordFrom (fuel + 1) (c :: rest)
        let later ← tokensFrom fuel rest
        return if w = [] then later else tokenOfWord w rest :: later

def tokens? (script : String) : Option (List Token) :=
  tokensFrom (script.length + 1) script.toList

end UsageGraph.Shell
