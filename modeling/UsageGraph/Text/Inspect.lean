import UsageGraph.Text.Blank
import UsageGraph.Text.Unseen

/-! # Texts in messages

* `inspect`: a text in quotes, with escapes for quotes, backslashes and what cannot be seen.
* `inspectAll`: a list of texts in square brackets.
* `inspectOne`: a character in single quotes.
-/

namespace UsageGraph.Text
set_option autoImplicit false

def inspectChar (c : Char) : List Char :=
  if c == '"' then ['\\', '"']
  else if c == '\\' then ['\\', '\\']
  else if c == '\n' then ['\\', 'n']
  else if c == '\r' then ['\\', 'r']
  else if c == '\t' then ['\\', 't']
  else if c == '\x00' then ['\\', '0']
  else if isUnseen c then ['\\', 'u', '{'] ++ Nat.toDigits 16 c.toNat ++ ['}']
  else [c]

def inspect (s : String) : String := String.ofList ('"' :: s.toList.flatMap inspectChar ++ ['"'])

def inspectAll (ss : List String) : String := "[" ++ join ", " (ss.map inspect) ++ "]"

/-- Only the kind of quote that stands around the character is escaped. -/
def inspectOne (c : Char) : String :=
  let inside := if c == '"' then [c] else if c == '\'' then ['\\', c] else inspectChar c
  String.ofList ('\'' :: inside ++ ['\''])

end UsageGraph.Text
