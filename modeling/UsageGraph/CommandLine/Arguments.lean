import UsageGraph.Version.Basic

/-! # Arguments

How the arguments of a command are told apart. An option starts with two minus signs and is given at
most once; its value follows as the next argument or behind an equals sign. Two minus signs alone end
the options.

* `Form`: the options and the positional arguments that a command takes.
* `Arguments`: what was given.
* `Stop`: why the arguments are not read any further.
* `Form.read`: reads arguments from left to right.
-/

namespace UsageGraph
open Text
set_option autoImplicit false

inductive Stop where
  | help
  | version
  | misuse
  deriving DecidableEq, Repr

/-! ## Values -/

inductive ArgumentKind where
  | text
  | path
  | count
  deriving DecidableEq, Repr

def stripPlus : List Char → List Char
  | '+' :: rest => rest
  | s => s

/-- A number of 64 bits, perhaps with a plus sign in front. -/
def countOf? (s : String) : Option Nat := (number? (stripPlus s.toList)).filter (· ≤ maxNumber)

/-- A path is not empty. -/
def ArgumentKind.accepts (s : String) : ArgumentKind → Bool
  | text => true
  | path => s != ""
  | count => (countOf? s).isSome

/-! ## Forms -/

inductive OptionKind where
  | value (kind : ArgumentKind)
  | flag
  | stop (reason : Stop)
  deriving DecidableEq, Repr

structure Form where
  /-- By name, without the two minus signs. -/
  options : List (String × OptionKind)
  /-- The options that are named by one letter, all of which stop the reading. -/
  letters : List (Char × Stop)
  positionals : List ArgumentKind
  /-- Whether the last positional argument may be repeated. -/
  repeats : Bool
  /-- Whether the first argument that is no option is the name of a command. -/
  hasCommands : Bool

structure Arguments where
  values : List (String × String)
  flags : List String
  positionals : List String
  deriving Repr

namespace Arguments

def empty : Arguments := ⟨[], [], []⟩

def value? (a : Arguments) (name : String) : Option String := a.values.lookup name

def has (a : Arguments) (name : String) : Bool := name ∈ a.flags

def addFlag (a : Arguments) (name : String) : Except Stop Arguments :=
  if name ∈ a.flags then .error .misuse else .ok { a with flags := name :: a.flags }

def addValue (a : Arguments) (name : String) (kind : ArgumentKind) (value : String) :
    Except Stop Arguments :=
  if (a.value? name).isSome || !kind.accepts value then .error .misuse
  else .ok { a with values := (name, value) :: a.values }

end Arguments

namespace Form
variable (f : Form)

/-! ## Single arguments -/

inductive Shape where
  /-- The end of all options. -/
  | terminator
  | long (name : String) (attached : Option String)
  | letters (first : Char)
  | word
  deriving DecidableEq, Repr

def longShape (s : List Char) : Shape :=
  match splitOnce '=' s with
  | some (name, value) => .long (String.ofList name) (some (String.ofList value))
  | none => .long (String.ofList s) none

/-- A minus sign alone is an ordinary word. -/
def shape (argument : String) : Shape :=
  match argument.toList with
  | ['-', '-'] => .terminator
  | '-' :: '-' :: rest => longShape rest
  | '-' :: c :: _ => .letters c
  | _ => .word

/-- The kind of the next positional argument behind those that are there already. -/
def nextKind? (a : Arguments) : Option ArgumentKind :=
  match f.positionals[a.positionals.length]? with
  | some kind => some kind
  | none => if f.repeats then f.positionals.getLast? else none

def addPositional (a : Arguments) (value : String) : Except Stop Arguments :=
  match f.nextKind? a with
  | none => .error .misuse
  | some kind =>
    if kind.accepts value then .ok { a with positionals := a.positionals ++ [value] }
    else .error .misuse

/-! ## All arguments -/

def readPositionals (a : Arguments) (values : List String) : Except Stop Arguments :=
  values.foldlM f.addPositional a

/-- What was given, and where there are commands, the name of one with all that comes after it. -/
def readFrom : List String → Arguments → Except Stop (Arguments × List String)
  | [], a => .ok (a, [])
  | s :: rest, a =>
    match shape s with
    | .terminator => do return (← f.readPositionals a rest, [])
    | .letters c => .error ((f.letters.lookup c).getD .misuse)
    | .word =>
      if f.hasCommands then .ok (a, s :: rest)
      else do readFrom rest (← f.addPositional a s)
    | .long name attached =>
      match f.options.lookup name, attached, rest with
      | some (.value kind), some value, rest => do readFrom rest (← a.addValue name kind value)
      | some (.value kind), none, value :: rest =>
        if shape value = .word then do readFrom rest (← a.addValue name kind value)
        else .error .misuse
      | some .flag, none, rest => do readFrom rest (← a.addFlag name)
      | some (.stop reason), none, _ => .error reason
      | _, _, _ => .error .misuse

def read (args : List String) : Except Stop (Arguments × List String) := f.readFrom args .empty

end Form
end UsageGraph
