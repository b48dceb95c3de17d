import UsageGraph.Document.Basic
import UsageGraph.Digest.Xxh3

/-! # Printing JSON

* `quoted`: a text in quotes; quotes, backslashes and control characters are escaped.
* `Document.pretty`: a value over several lines, indented by two spaces a level. An empty list or
  record stays on one line.
* `Document.compact`: a value without any blanks.
-/

namespace UsageGraph
open Text
set_option autoImplicit false

def escapeChar (c : Char) : List Char :=
  if c == '"' then ['\\', '"']
  else if c == '\\' then ['\\', '\\']
  else if c == '\x08' then ['\\', 'b']
  else if c == '\x0c' then ['\\', 'f']
  else if c == '\n' then ['\\', 'n']
  else if c == '\r' then ['\\', 'r']
  else if c == '\t' then ['\\', 't']
  else if c.toNat < 0x20 then
    ['\\', 'u', '0', '0', Digest.hexDigit (c.toNat / 16), Digest.hexDigit (c.toNat % 16)]
  else [c]

def quoted (s : String) : String := String.ofList ('"' :: s.toList.flatMap escapeChar ++ ['"'])

namespace Document

def indent (level : Nat) : String := String.ofList ('\n' :: List.replicate (2 * level) ' ')

mutual

/-- A text without a value is written as an empty one. -/
def prettyAt (level : Nat) : Document → String
  | null => "null"
  | bool b => if b then "true" else "false"
  | number n => n.render
  | text s => quoted (s.getD "")
  | list [] => "[]"
  | list (d :: ds) => "[" ++ join "," (prettyItems (level + 1) (d :: ds)) ++ indent level ++ "]"
  | record [] => "\x7b\x7d"
  | record (f :: fs) =>
    "\x7b" ++ join "," (prettyMembers (level + 1) (f :: fs)) ++ indent level ++ "\x7d"

def prettyItems (level : Nat) : List Document → List String
  | [] => []
  | d :: ds => (indent level ++ prettyAt level d) :: prettyItems level ds

def prettyMembers (level : Nat) : List (Option String × Document) → List String
  | [] => []
  | (key, d) :: fs =>
    (indent level ++ quoted (key.getD "") ++ ": " ++ prettyAt level d) :: prettyMembers level fs

end

def pretty (d : Document) : String := prettyAt 0 d

mutual

def compact : Document → String
  | null => "null"
  | bool b => if b then "true" else "false"
  | number n => n.render
  | text s => quoted (s.getD "")
  | list ds => "[" ++ join "," (compactItems ds) ++ "]"
  | record fs => "\x7b" ++ join "," (compactMembers fs) ++ "\x7d"

def compactItems : List Document → List String
  | [] => []
  | d :: ds => compact d :: compactItems ds

def compactMembers : List (Option String × Document) → List String
  | [] => []
  | (key, d) :: fs => (quoted (key.getD "") ++ ":" ++ compact d) :: compactMembers fs

end

end Document
end UsageGraph
