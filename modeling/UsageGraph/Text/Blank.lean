/-! # Blank characters, lines and simple splitting

Everything here works on `List Char`; the versions on `String` wrap it.

* `isBlank`: the Unicode property White_Space.
* `trimChars`, `trim`: the text without its leading and trailing blanks.
* `lines`: the lines of a text, without their terminators.
* `splitOnce`, `splitLast`: cut at the first or at the last occurrence of a character.
* `splitAll`: cut at every occurrence of a character.
* `replaceAll`: every occurrence of a pattern, from left to right and without overlap.
-/

namespace UsageGraph.Text
set_option autoImplicit false

/-! ## Blanks -/

/-- The characters with the Unicode property White_Space. -/
def isBlank (c : Char) : Bool :=
  let n := c.toNat
  (0x09 ≤ n && n ≤ 0x0D) || n == 0x20 || n == 0x85 || n == 0xA0 || n == 0x1680 ||
    (0x2000 ≤ n && n ≤ 0x200A) || n == 0x2028 || n == 0x2029 || n == 0x202F || n == 0x205F ||
    n == 0x3000

def trimStart (s : List Char) : List Char := s.dropWhile isBlank

def trimEnd (s : List Char) : List Char := (s.reverse.dropWhile isBlank).reverse

def trimChars (s : List Char) : List Char := trimEnd (trimStart s)

def trim (s : String) : String := String.ofList (trimChars s.toList)

/-- Nothing but blanks. -/
def allBlank (s : String) : Bool := s.toList.all isBlank

/-! ## Splitting -/

/-- The text before and after the first `c`. -/
def splitOnce (c : Char) : List Char → Option (List Char × List Char)
  | [] => none
  | x :: xs =>
    if x = c then some ([], xs)
    else (splitOnce c xs).map fun p => (x :: p.1, p.2)

/-- The text before and after the last `c`. -/
def splitLast (c : Char) : List Char → Option (List Char × List Char)
  | [] => none
  | x :: xs =>
    match splitLast c xs with
    | some (a, b) => some (x :: a, b)
    | none => if x = c then some ([], xs) else none

/-- The pieces between the occurrences of `c`; never empty. -/
def splitAll (c : Char) : List Char → List (List Char)
  | [] => [[]]
  | x :: xs =>
    if x = c then [] :: splitAll c xs
    else
      match splitAll c xs with
      | [] => [[x]]
      | p :: ps => (x :: p) :: ps

/-- A line that was ended by a line feed loses one carriage return before it. -/
def dropReturn (s : List Char) : List Char :=
  if s.getLast? = some '\r' then s.dropLast else s

/-- The lines of a text. A line feed ends a line, and takes a carriage return before it along. -/
def linesChars (s : List Char) : List (List Char) :=
  let ps := splitAll '\n' s
  ps.dropLast.map dropReturn ++ (ps.getLast?.filter (· ≠ [])).toList

def lines (s : String) : List String := (linesChars s.toList).map String.ofList

/-! ## Replacing and cutting -/

/-- `skip` characters of an occurrence that is already replaced are still to be passed over. -/
def replaceFrom (pat new : List Char) : Nat → List Char → List Char
  | _, [] => []
  | skip + 1, _ :: xs => replaceFrom pat new skip xs
  | 0, x :: xs =>
    if pat.isPrefixOf (x :: xs) then new ++ replaceFrom pat new (pat.length - 1) xs
    else x :: replaceFrom pat new 0 xs

/-- Every occurrence of a non-empty pattern replaced, from left to right. -/
def replaceAll (pat new s : String) : String :=
  if pat.toList = [] then s
  else String.ofList (replaceFrom pat.toList new.toList 0 s.toList)

/-- The rest of `s` after a leading `pat`. -/
def stripPrefix? : List Char → List Char → Option (List Char)
  | [], s => some s
  | _ :: _, [] => none
  | p :: ps, x :: xs => if p = x then stripPrefix? ps xs else none

/-- `s` without any `c` at its end. -/
def dropTrailing (c : Char) (s : String) : String :=
  String.ofList (s.toList.reverse.dropWhile (· = c)).reverse

def join (sep : String) (parts : List String) : String := String.intercalate sep parts

/-- The order of texts by code point, which is the order of their UTF-8 bytes. -/
def le (a b : String) : Bool := decide (a < b) || a == b

end UsageGraph.Text
