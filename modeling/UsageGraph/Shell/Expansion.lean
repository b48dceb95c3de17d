import UsageGraph.Shell.Pattern
import UsageGraph.Shell.State

/-! # Expansion of words

* `Mark`: a character of a field, or where a field begins or ends.
* `fieldsOf`: the fields that marks make.
* `expand`: words as fields. What is brought in outside quotes is split at its blanks, and a pattern
  outside quotes stands for the paths that it matches.
* `textOf`: a word as one text.
* `matchesOne`: whether a text matches a word as a pattern.
-/

namespace UsageGraph.Shell
open Text
set_option autoImplicit false

inductive Mark where
  | char (c : Char) (special : Bool)
  /-- Here is a field, also if it stays empty. -/
  | field
  | gap
  deriving DecidableEq, Repr

/-! ## Fields -/

/-- The fields of marks behind a field that is open, with its characters in reverse. -/
def fieldsFrom : Option (List PatternChar) → List Mark → List (List PatternChar)
  | none, [] => []
  | some cs, [] => [cs.reverse]
  | now, .char c special :: rest => fieldsFrom (some ((c, special) :: now.getD [])) rest
  | now, .field :: rest => fieldsFrom (some (now.getD [])) rest
  | none, .gap :: rest => fieldsFrom none rest
  | some cs, .gap :: rest => cs.reverse :: fieldsFrom none rest

def fieldsOf (marks : List Mark) : List (List PatternChar) := fieldsFrom none marks

def isGap (c : Char) : Bool := c ∈ [' ', '\t', '\n']

def marksOf (quoted : Bool) (text : String) : List Mark :=
  text.toList.map fun c => if !quoted && isGap c then .gap else .char c (!quoted)

/-- Every argument as a field of its own. -/
def argumentMarks (quoted : Bool) (arguments : List String) : List Mark :=
  List.flatten ((arguments.map fun a =>
    (if quoted then [.field] else []) ++ marksOf quoted a).intersperse [.gap])

/-! ## Words -/

/-- Runs a script, and gives what it prints. -/
abbrev Printing := String → Shell → Bytes × Shell

/-- A parameter with a default behind a colon and a minus sign. -/
def valueOf (s : Shell) (name : String) : String :=
  match name.splitOn ":-" with
  | [name, spare] => ((s.parameter? name).filter (· ≠ "")).getD spare
  | _ => (s.parameter? name).getD ""

def dropLineEnds (text : String) : String := dropTrailing '\n' text

def pieceMarks (run : Printing) (s : Shell) : Piece → List Mark × Shell
  | .char c quoted => ([.char c (!quoted)], s)
  | .quotes => ([.field], s)
  | .parameter "@" quoted => (argumentMarks quoted s.arguments, s)
  | .parameter name quoted => (marksOf quoted (valueOf s name), s)
  | .printed script quoted =>
    let (bytes, s) := run script s
    (marksOf quoted (dropLineEnds (decodeLossy bytes)), s)

/-- Quotes around all arguments make no field of their own. -/
def wordMarks (run : Printing) : Word → Shell → List Mark × Shell
  | [], s => ([], s)
  | .quotes :: .parameter "@" true :: rest, s =>
    let (later, s') := wordMarks run rest s
    (argumentMarks true s.arguments ++ later, s')
  | piece :: rest, s =>
    let (first, s) := pieceMarks run s piece
    let (later, s) := wordMarks run rest s
    (first ++ later, s)

def expand (run : Printing) : List Word → Shell → List String × Shell
  | [], s => ([], s)
  | w :: rest, s =>
    let (marks, s) := wordMarks run w s
    let (later, s) := expand run rest s
    ((fieldsOf marks).flatMap (matchingPaths s.tree) ++ later, s)

/-- A word that is not split. -/
def textOf (run : Printing) (w : Word) (s : Shell) : String × Shell :=
  let (marks, s) := wordMarks run w s
  (String.ofList (marks.filterMap fun
    | .char c _ => some c
    | .gap => some ' '
    | .field => none), s)

def patternOf (run : Printing) (w : Word) (s : Shell) : List PatternChar × Shell :=
  let (marks, s) := wordMarks run w s
  (marks.filterMap fun
    | .char c special => some (c, special)
    | .gap => some (' ', false)
    | .field => none, s)

/-- Whether a text matches one of some words. Those behind the first that it matches are not looked
at. -/
def matchesOne (run : Printing) (text : String) : List Word → Shell → Bool × Shell
  | [], s => (false, s)
  | w :: rest, s =>
    let (p, s) := patternOf run w s
    if matchesPattern p text then (true, s) else matchesOne run text rest s

/-! ## Assignments -/

/-- The name and the value of an assignment. -/
def assignment? (w : Word) : Option (String × Word) :=
  let name := w.takeWhile fun piece => match piece with
    | .char c false => isNameChar c
    | _ => false
  match plainText? name, w.drop name.length with
  | some text, .char '=' false :: value =>
    if (text.toList.head?.map isNameStart).getD false then some (text, value) else none
  | _, _ => none

/-- The assignments in front of a command, and its words. -/
def splitAssignments : List Word → List (String × Word) × List Word
  | [] => ([], [])
  | w :: rest =>
    match assignment? w with
    | some a => prepend [a] (splitAssignments rest)
    | none => ([], w :: rest)

def assignAll (run : Printing) : List (String × Word) → Shell → Shell
  | [], s => s
  | (name, w) :: rest, s =>
    let (value, s) := textOf run w s
    assignAll run rest (s.assign name value)

end UsageGraph.Shell
