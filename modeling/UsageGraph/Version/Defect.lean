import UsageGraph.Text.Inspect
import UsageGraph.Version.Basic

/-! # What is wrong with a version

* `VersionPart`: the parts of a version text.
* `VersionDefect`: the first thing in a text that no version has, with its wording.
* `Version.defect?`: the defect of a text, none if it is a version.
-/

namespace UsageGraph
open Text
set_option autoImplicit false

inductive VersionPart where
  | major
  | minor
  | patch
  | pre
  | build
  deriving DecidableEq, Repr

def VersionPart.name : VersionPart → String
  | major => "major version number"
  | minor => "minor version number"
  | patch => "patch version number"
  | pre => "pre-release identifier"
  | build => "build metadata"

inductive VersionDefect where
  | empty
  /-- The text ends within a part. -/
  | ended (part : VersionPart)
  | unexpected (part : VersionPart) (c : Char)
  | unexpectedAfter (part : VersionPart) (c : Char)
  | spareZero (part : VersionPart)
  | tooLarge (part : VersionPart)
  | emptyLabel (part : VersionPart)
  deriving DecidableEq, Repr

def VersionDefect.message : VersionDefect → String
  | empty => "empty string, expected a semver version"
  | ended part => "unexpected end of input while parsing " ++ part.name
  | unexpected part c => "unexpected character " ++ inspectOne c ++ " while parsing " ++ part.name
  | unexpectedAfter part c => "unexpected character " ++ inspectOne c ++ " after " ++ part.name
  | spareZero part => "invalid leading zero in " ++ part.name
  | tooLarge part => "value of " ++ part.name ++ " exceeds u64::MAX"
  | emptyLabel part => "empty identifier segment in " ++ part.name

namespace Version

/-! ## Reading part by part

Each of these gives what comes after the part. -/

/-- A text that stops where something has to come. -/
def missing (part : VersionPart) (defect : Char → VersionDefect) : List Char → VersionDefect
  | [] => .ended part
  | c :: _ => defect c

def afterNumber (part : VersionPart) (s : List Char) : Except VersionDefect (List Char) :=
  let digits := s.takeWhile isAsciiDigit
  if digits = [] then .error (missing part (.unexpected part) s)
  else if hasSpareZero digits then .error (.spareZero part)
  else if (versionNumber? digits).isNone then .error (.tooLarge part)
  else .ok (s.drop digits.length)

def afterDot (part : VersionPart) : List Char → Except VersionDefect (List Char)
  | '.' :: rest => .ok rest
  | s => .error (missing part (.unexpectedAfter part) s)

def labelDefect? (part : VersionPart) (label : List Char) : Option VersionDefect :=
  if label = [] then some (.emptyLabel part)
  else if part = .pre ∧ label.all isAsciiDigit ∧ hasSpareZero label then some (.spareZero part)
  else none

/-- The labels behind a sign, if the sign is there, and the part that was read last. -/
def afterLabels (sign : Char) (part : VersionPart) (last : VersionPart) (s : List Char) :
    Except VersionDefect (VersionPart × List Char) :=
  match s with
  | [] => .ok (last, [])
  | c :: rest =>
    if c ≠ sign then .ok (last, c :: rest)
    else
      let labels := rest.takeWhile fun c => Label.isLabelChar c || c == '.'
      match (splitAll '.' labels).findSome? (labelDefect? part) with
      | some defect => .error defect
      | none => .ok (part, rest.drop labels.length)

def diagnose (s : List Char) : Except VersionDefect Unit := do
  if s = [] then .error .empty
  let s ← afterNumber .major s
  let s ← afterDot .major s
  let s ← afterNumber .minor s
  let s ← afterDot .minor s
  let s ← afterNumber .patch s
  let (last, s) ← afterLabels '-' .pre .patch s
  let (last, s) ← afterLabels '+' .build last s
  match s with
  | [] => return ()
  | c :: _ => .error (.unexpectedAfter last c)

def defect? (s : String) : Option VersionDefect :=
  match diagnose s.toList with
  | .ok () => none
  | .error defect => some defect

/-- The version, or what is wrong with the text. -/
def read (s : String) : Except VersionDefect Version :=
  match parse? s with
  | some v => .ok v
  | none => .error ((defect? s).getD .empty)

end Version
end UsageGraph
