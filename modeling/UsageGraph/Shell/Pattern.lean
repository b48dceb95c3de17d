import UsageGraph.FileTree.Access

/-! # Patterns

What a text is compared with where a script chooses between commands or names files. Only a character
outside quotes has a special meaning.

* `PatternToken`, `patternTokens`: a pattern as what it is made of.
* `matchesPattern`: whether a pattern matches all of a text.
* `matchingPaths`: the paths that a pattern matches, component by component.
-/

namespace UsageGraph.Shell
open Text
set_option autoImplicit false

inductive PatternToken where
  | one (c : Char)
  /-- Any character. -/
  | any
  /-- Any characters. -/
  | star
  /-- A character inside one of the ranges, or outside of all of them. -/
  | oneOf (negated : Bool) (ranges : List (Char × Char))
  deriving DecidableEq, Repr

/-- Whether a character has its special meaning. -/
abbrev PatternChar := Char × Bool

/-! ## Reading -/

def rangesOf : List Char → List (Char × Char)
  | a :: '-' :: b :: rest => (a, b) :: rangesOf rest
  | a :: rest => (a, a) :: rangesOf rest
  | [] => []

/-- The characters up to a closing bracket; one that comes first stands for itself. -/
def upToBracket : List PatternChar → Option (List Char × List PatternChar)
  | [] => none
  | first :: rest =>
    let inside := rest.takeWhile fun p => p.1 ≠ ']'
    match rest.drop inside.length with
    | [] => none
    | _ :: later => some (first.1 :: inside.map Prod.fst, later)

def characterClass? (p : List PatternChar) : Option (PatternToken × List PatternChar) :=
  match p with
  | ('!', true) :: rest => (upToBracket rest).map fun q => (.oneOf true (rangesOf q.1), q.2)
  | _ => (upToBracket p).map fun q => (.oneOf false (rangesOf q.1), q.2)

/-- The tokens of a pattern that is no longer than `fuel`. -/
def patternTokens : Nat → List PatternChar → List PatternToken
  | 0, _ => []
  | _, [] => []
  | fuel + 1, (c, special) :: rest =>
    if !special then .one c :: patternTokens fuel rest
    else if c = '*' then .star :: patternTokens fuel rest
    else if c = '?' then .any :: patternTokens fuel rest
    else
      match if c = '[' then characterClass? rest else none with
      | some (token, rest) => token :: patternTokens fuel rest
      | none => .one c :: patternTokens fuel rest

/-! ## Matching -/

/-- `next` succeeds after some characters. -/
def afterSome (next : List Char → Bool) : List Char → Bool
  | [] => next []
  | c :: s => next (c :: s) || afterSome next s

/-- `next` succeeds after a character that satisfies `p`. -/
def afterCharacter (p : Char → Bool) (next : List Char → Bool) : List Char → Bool
  | [] => false
  | c :: s => p c && next s

def matchesTokens : List PatternToken → List Char → Bool
  | [] => List.isEmpty
  | .one c :: ts => afterCharacter (· == c) (matchesTokens ts)
  | .any :: ts => afterCharacter (fun _ => true) (matchesTokens ts)
  | .star :: ts => afterSome (matchesTokens ts)
  | .oneOf negated ranges :: ts =>
    afterCharacter (fun c => (ranges.any fun r => r.1 ≤ c && c ≤ r.2) != negated) (matchesTokens ts)

def matchesPattern (p : List PatternChar) (text : String) : Bool :=
  matchesTokens (patternTokens p.length p) text.toList

/-! ## Paths -/

def plainOf (p : List PatternChar) : String := String.ofList (p.map Prod.fst)

def isSpecial (p : PatternChar) : Bool := p.2 && (p.1 == '*' || p.1 == '?' || p.1 == '[')

/-- The components between slashes. -/
def patternParts (p : List PatternChar) : List (List PatternChar) :=
  p.foldr (fun c parts => match parts with
    | part :: more => if c.1 = '/' then [] :: part :: more else (c :: part) :: more
    | [] => [[c]]) [[]]

def namesIn (t : FileTree) (dir : String) : List String :=
  match t.locate dir with
  | .ok at_ => (t.below at_).filterMap fun p => match p.1 with
    | [name] => some name
    | _ => none
  | .error _ => []

/-- A dot in front is matched by a dot alone. -/
def matchesName (p : List PatternChar) (name : String) : Bool :=
  (name.toList.head? ≠ some '.' || (p.head?.map Prod.fst) = some '.') && matchesPattern p name

def matchingFrom (t : FileTree) (front : String) : List (List PatternChar) → List String
  | [] => if t.exists? front then [front] else []
  | part :: rest =>
    let names := if part.any isSpecial then
        (namesIn t (if front = "" then "." else front)).filter (matchesName part)
      else [plainOf part]
    let tail := if rest.isEmpty then "" else "/"
    names.flatMap fun name => matchingFrom t (front ++ name ++ tail) rest

/-- A pattern that matches no path stands for itself, and so does a text without special characters. -/
def matchingPaths (t : FileTree) (p : List PatternChar) : List String :=
  if p.any isSpecial then
    match matchingFrom t "" (patternParts p) with
    | [] => [plainOf p]
    | paths => paths
  else [plainOf p]

end UsageGraph.Shell
