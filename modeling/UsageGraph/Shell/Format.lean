import UsageGraph.Text.Blank
import UsageGraph.Text.Utf8
import UsageGraph.Text.WordChar

/-! # Formatted output

* `escape`: the bytes that a backslash and what comes after it stand for.
* `unescape`: a text with all its escapes replaced.
* `format`: a template filled in with arguments, again and again until all of them are used up.
-/

namespace UsageGraph.Shell
open Text
set_option autoImplicit false

/-! ## Escapes -/

def isOctal (c : Char) : Bool := '0' ≤ c && c ≤ '7'

def octalValue (cs : List Char) : Nat := cs.foldl (fun n c => 8 * n + (c.toNat - 48)) 0

def charBytes (c : Char) : Bytes := encode (String.ofList [c])

/-- The bytes of an escape with up to `width` octal digits, and what comes after it. -/
def octal (width : Nat) (cs : List Char) : Bytes × List Char :=
  let digits := (cs.take width).takeWhile isOctal
  ([(octalValue digits).toUInt8], cs.drop digits.length)

def control? : Char → Option UInt8
  | 'a' => some 7
  | 'b' => some 8
  | 't' => some 9
  | 'n' => some 10
  | 'v' => some 11
  | 'f' => some 12
  | 'r' => some 13
  | '\\' => some 92
  | _ => none

/-- What a backslash stands for, from what comes after it. A backslash that opens no escape stands
for itself. -/
def escape : List Char → Bytes × List Char
  | [] => (charBytes '\\', [])
  | c :: rest =>
    match control? c with
    | some b => ([b], rest)
    | none => if isOctal c then octal 3 (c :: rest) else (charBytes '\\', c :: rest)

/-- In a text, as opposed to a template, an octal number comes after a zero. -/
def textEscape : List Char → Bytes × List Char
  | '0' :: rest => octal 3 rest
  | cs => escape cs

/-- The bytes of a text, and whether it stops the output where it ends. -/
def unescapeFrom : Nat → List Char → Bytes × Bool
  | 0, _ => ([], false)
  | _, [] => ([], false)
  | _ + 1, '\\' :: 'c' :: _ => ([], true)
  | fuel + 1, '\\' :: rest =>
    let (bytes, rest) := textEscape rest
    let later := unescapeFrom fuel rest
    (bytes ++ later.1, later.2)
  | fuel + 1, c :: rest =>
    let later := unescapeFrom fuel rest
    (charBytes c ++ later.1, later.2)

def unescape (text : String) : Bytes × Bool := unescapeFrom (text.length + 1) text.toList

/-! ## Templates -/

/-- The state of a template that is being filled in. -/
structure Filling where
  bytes : Bytes
  arguments : List String
  /-- Whether an argument was asked for. -/
  asked : Bool
  stopped : Bool

def number (text : String) : Int := text.toInt?.getD 0

/-- What a conversion makes of an argument, and whether the output stops there. -/
def convert (conversion : Char) (argument : String) : Bytes × Bool :=
  match conversion with
  | 's' => (encode argument, false)
  | 'b' => unescape argument
  | 'c' => (encode (String.ofList (argument.toList.take 1)), false)
  | 'x' => (encode (String.ofList (Nat.toDigits 16 (number argument).toNat)), false)
  | 'o' => (encode (String.ofList (Nat.toDigits 8 (number argument).toNat)), false)
  | _ => (encode (toString (number argument)), false)

def Filling.add (f : Filling) (bytes : Bytes) : Filling := { f with bytes := f.bytes ++ bytes }

def Filling.take (f : Filling) (conversion : Char) : Filling :=
  let (bytes, stopped) := convert conversion (f.arguments.headD "")
  { bytes := f.bytes ++ bytes, arguments := f.arguments.tail, asked := true, stopped := stopped }

def fillFrom : Nat → List Char → Filling → Filling
  | 0, _, f => f
  | _, [], f => f
  | fuel + 1, '\\' :: rest, f =>
    let (bytes, rest) := escape rest
    fillFrom fuel rest (f.add bytes)
  | fuel + 1, '%' :: '%' :: rest, f => fillFrom fuel rest (f.add (charBytes '%'))
  | fuel + 1, '%' :: c :: rest, f =>
    let f := f.take c
    if f.stopped then f else fillFrom fuel rest f
  | fuel + 1, c :: rest, f => fillFrom fuel rest (f.add (charBytes c))

def fillAgain (template : String) : Nat → Filling → Filling
  | 0, f => f
  | fuel + 1, f =>
    let f := fillFrom (template.length + 1) template.toList f
    if f.asked && !f.stopped && !f.arguments.isEmpty then fillAgain template fuel f else f

def format (template : String) (arguments : List String) : Bytes :=
  (fillAgain template (arguments.length + 1) ⟨[], arguments, false, false⟩).bytes

end UsageGraph.Shell
