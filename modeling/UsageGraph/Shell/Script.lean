import UsageGraph.Shell.Word

/-! # Shell scripts

* `Script`: commands, and the ways to put them together.
* `Script.parse`: reads a script. What stands in the way of reading it is told as a text.
-/

namespace UsageGraph.Shell
set_option autoImplicit false

inductive Direction where
  | input
  | output
  | append
  /-- To where another channel goes. -/
  | duplicate
  deriving DecidableEq, Repr

structure Redirection where
  channel : Nat
  direction : Direction
  target : Word
  deriving DecidableEq, Repr

inductive Script where
  | skip
  | command (words : List Word) (redirections : List Redirection)
  | sequence (first second : Script)
  /-- The second one if the first one succeeds. -/
  | both (first second : Script)
  /-- The second one if the first one fails. -/
  | either (first second : Script)
  | negation (body : Script)
  | pipe (first second : Script)
  /-- What is set inside is forgotten afterwards. -/
  | subshell (body : Script) (redirections : List Redirection)
  | group (body : Script) (redirections : List Redirection)
  | branch (condition yes no : Script)
  /-- The body as long as the condition succeeds, or as long as it fails. -/
  | loop (whileFails : Bool) (condition body : Script)
  /-- The body for one value after the other. -/
  | each (name : String) (values : List Word) (body : Script)
  /-- The body if the subject matches one of the patterns. -/
  | choice (subject : Word) (patterns : List Word) (body otherwise : Script)
  deriving Repr

namespace Script

/-! ## Tokens with a meaning of their own -/

/-- A word of the language, or an operator. -/
def signOf : Token → String
  | .operator s => s
  | .word w => (plainText? w).getD ""
  | .number _ => ""

/-- Ends a list of commands. -/
def closers : List String :=
  [")", "\x7d", "then", "elif", "else", "fi", "do", "done", "esac", ";;"]

def separators : List String := [";", "&", "\n"]

def skipLines : List Token → List Token
  | .operator "\n" :: rest => skipLines rest
  | ts => ts

/-- The token as it is told in a complaint. -/
def tokenName : Token → String
  | .operator "\n" => "newline"
  | .operator s => "\"" ++ s ++ "\""
  | .word w => match plainText? w with
    | some s => "\"" ++ s ++ "\""
    | none => "word"
  | .number n => "\"" ++ toString n ++ "\""

def unexpected : List Token → String
  | [] => "Syntax error: end of file unexpected"
  | t :: _ => "Syntax error: " ++ tokenName t ++ " unexpected"

/-- Takes tokens from the front of those that are left. -/
abbrev Reading := StateT (List Token) (Except String)

/-- The tokens that are left cannot go on like this. -/
def refuse {α : Type} : Reading α := do throw (unexpected (← get))

/-- The sign of the next token, if there is one. -/
def nextSign : Reading String := return ((← get).head?.map signOf).getD ""

def dropToken : Reading Unit := modify List.tail

def expect (sign : String) : Reading Unit := do
  if (← nextSign) = sign then dropToken
  else throw (unexpected (← get) ++ " (expecting \"" ++ sign ++ "\")")

/-! ## Commands -/

/-- What a redirection operator does, and the channel that it is for unless another one is told. -/
def redirectionOf? : String → Option (Direction × Nat)
  | "<" => some (.input, 0)
  | ">" => some (.output, 1)
  | ">|" => some (.output, 1)
  | ">>" => some (.append, 1)
  | ">&" => some (.duplicate, 1)
  | _ => none

def redirection? : List Token → Option (Redirection × List Token)
  | .number n :: .operator op :: .word w :: rest =>
    (redirectionOf? op).map fun d => (⟨n, d.1, w⟩, rest)
  | .operator op :: .word w :: rest => (redirectionOf? op).map fun d => (⟨d.2, d.1, w⟩, rest)
  | _ => none

/-- The words and redirections at the front, in any order. -/
def simpleFrom : Nat → List Token → (List Word × List Redirection) × List Token
  | 0, ts => (([], []), ts)
  | fuel + 1, ts =>
    match redirection? ts with
    | some (r, rest) =>
      let p := simpleFrom fuel rest
      ((p.1.1, r :: p.1.2), p.2)
    | none =>
      match ts with
      | .word w :: rest =>
        let p := simpleFrom fuel rest
        ((w :: p.1.1, p.1.2), p.2)
      | _ => (([], []), ts)

def simple : Reading Script := do
  let ts ← get
  let ((words, rs), rest) := simpleFrom (ts.length + 1) ts
  set rest
  if words.isEmpty && rs.isEmpty then refuse else return .command words rs

/-- The redirections of a compound command, behind which no word may come. -/
def redirections : Reading (List Redirection) := do
  let ts ← get
  match simpleFrom (ts.length + 1) ts with
  | (([], rs), rest) =>
    set rest
    return rs
  | _ => refuse

def word : Reading Word := do
  match ← get with
  | .word w :: rest =>
    set rest
    return w
  | _ => refuse

/-- The words at the front. -/
def words : Reading (List Word) := do
  let ts ← get
  let front := ts.takeWhile fun t => t matches .word _
  set (ts.drop front.length)
  return front.filterMap fun
    | .word w => some w
    | _ => none

/-- All arguments, each of them for itself. -/
def allArguments : Word := [.quotes, .parameter "@" true]

/-- The values of a loop, which are the arguments unless there are others. -/
def values : Reading (List Word) := do
  let vs ← if (← nextSign) = "in" then do
      dropToken
      words
    else pure [allArguments]
  if (← nextSign) = ";" then dropToken
  modify skipLines
  return vs

/-- One pattern or more, and the bracket behind them. -/
def patterns : Nat → Reading (List Word)
  | 0 => refuse
  | fuel + 1 => do
    let w ← word
    if (← nextSign) = "|" then
      dropToken
      return w :: (← patterns fuel)
    else
      expect ")"
      return [w]

/-! ## Grammar -/

mutual

/-- Commands one after the other, up to a token that ends them. -/
def list : Nat → Reading Script
  | 0 => refuse
  | fuel + 1 => do
    modify skipLines
    if (← get).isEmpty ∨ (← nextSign) ∈ closers then return .skip
    let first ← logical fuel
    if (← nextSign) ∈ separators then
      dropToken
      return .sequence first (← list fuel)
    else return first

def logical : Nat → Reading Script
  | 0 => refuse
  | fuel + 1 => do logicalAfter fuel (← pipeline fuel)

def logicalAfter : Nat → Script → Reading Script
  | 0, _ => refuse
  | fuel + 1, first => do
    match ← nextSign with
    | "&&" =>
      modify fun ts => skipLines ts.tail
      logicalAfter fuel (.both first (← pipeline fuel))
    | "||" =>
      modify fun ts => skipLines ts.tail
      logicalAfter fuel (.either first (← pipeline fuel))
    | _ => return first

def pipeline : Nat → Reading Script
  | 0 => refuse
  | fuel + 1 => do
    if (← nextSign) = "!" then
      dropToken
      return .negation (← pipeline fuel)
    else
      let first ← compound fuel
      if (← nextSign) = "|" then
        modify fun ts => skipLines ts.tail
        return .pipe first (← pipeline fuel)
      else return first

def compound : Nat → Reading Script
  | 0 => refuse
  | fuel + 1 => do
    match ← nextSign with
    | "(" =>
      dropToken
      let body ← list fuel
      expect ")"
      return .subshell body (← redirections)
    | "\x7b" =>
      dropToken
      let body ← list fuel
      expect "\x7d"
      return .group body (← redirections)
    | "if" =>
      dropToken
      let body ← branches fuel
      return .group body (← redirections)
    | "while" =>
      dropToken
      let condition ← list fuel
      return .group (.loop false condition (← repeated fuel)) (← redirections)
    | "until" =>
      dropToken
      let condition ← list fuel
      return .group (.loop true condition (← repeated fuel)) (← redirections)
    | "for" =>
      dropToken
      let name := (plainText? (← word)).getD ""
      modify skipLines
      let vs ← values
      return .group (.each name vs (← repeated fuel)) (← redirections)
    | "case" =>
      dropToken
      let subject ← word
      modify skipLines
      expect "in"
      return .group (← choices subject fuel) (← redirections)
    | _ => simple

/-- The body of a loop. -/
def repeated : Nat → Reading Script
  | 0 => refuse
  | fuel + 1 => do
    expect "do"
    let body ← list fuel
    expect "done"
    return body

/-- The choices that are left. The last one may go without its end mark. -/
def choices (subject : Word) : Nat → Reading Script
  | 0 => refuse
  | fuel + 1 => do
    modify skipLines
    if (← nextSign) = "esac" then
      dropToken
      return .skip
    else
      if (← nextSign) = "(" then dropToken
      let ps ← patterns fuel
      let body ← list fuel
      if (← nextSign) ≠ "esac" then expect ";;"
      return .choice subject ps body (← choices subject fuel)

/-- What comes after the word that opens a branch, up to the end of all branches. -/
def branches : Nat → Reading Script
  | 0 => refuse
  | fuel + 1 => do
    let condition ← list fuel
    expect "then"
    let yes ← list fuel
    match ← nextSign with
    | "elif" =>
      dropToken
      return .branch condition yes (← branches fuel)
    | "else" =>
      dropToken
      let no ← list fuel
      expect "fi"
      return .branch condition yes no
    | _ =>
      expect "fi"
      return .branch condition yes .skip

end

def script (tokens : Nat) : Reading Script := do
  let body ← list (6 * tokens + 6)
  if (← get).isEmpty then return body else refuse

def parse (text : String) : Except String Script :=
  match tokens? text with
  | none => .error "Syntax error: Unterminated quoted string"
  | some ts => (script ts.length).run' ts

end Script
end UsageGraph.Shell
