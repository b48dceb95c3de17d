import UsageGraph.Shell.Program

/-! # Commands of the shell itself

Commands that change the shell that runs them, or that it answers without starting a program.

* `builtin?`: the command of a name.
* `test`: the conditions that can be asked for.
-/

namespace UsageGraph.Shell
open Text
set_option autoImplicit false

/-! ## Printing -/

/-- Escapes are always replaced. -/
def plainEcho : Program := fun args c s =>
  match args with
  | "-n" :: args => printEscaped c args false s
  | args => printEscaped c args true s

def plainPrintf : Program := fun args c s =>
  match args with
  | [] => s.complain c "printf: usage: printf format [arg ...]" 2
  | template :: args => (s.writeBytes c.out (format template args)).succeed

/-! ## The directory -/

def homeOf (s : Shell) : String := (s.bindings.get? "HOME").getD "/"

def cd : Program := fun args c s =>
  let path := args.headD (homeOf s)
  if s.tree.isDirectory path then
    match s.tree.locate path with
    | .ok at_ =>
      let cwd := FileTree.pathOf at_
      ({ s with tree := { s.tree with cwd := cwd } }.assign "PWD" cwd).succeed
    | .error _ => s.fail 2
  else s.complain c ("cd: can't cd to " ++ path) 2

/-! ## Variables -/

/-- A name, with or without a value for it. -/
def exportOne (s : Shell) (a : String) : Shell :=
  match splitOnce '=' a.toList with
  | some (name, value) =>
    (s.assign (String.ofList name) (String.ofList value)).share (String.ofList name)
  | none => s.share a

def export_ : Program := fun args _ s => (args.foldl exportOne s).succeed

def unset : Program := fun args _ s =>
  { s.succeed with bindings := args.foldl Table.erase s.bindings }

/-- The first line of some bytes, and the bytes behind it; no line if its end is missing. -/
def cutLine (bytes : Bytes) : Option Bytes × Bytes :=
  let line := bytes.takeWhile (· != 10)
  match bytes.drop line.length with
  | [] => (none, line)
  | _ :: rest => (some line, rest)

def isBlankOnly (c : Char) : Bool := c == ' ' || c == '\t'

/-- The words of a line by name. The last name takes all that is left. -/
def assignWords : List String → List Char → Shell → Shell
  | [], _, s => s
  | [name], line, s =>
    s.assign name (String.ofList
      ((line.dropWhile isBlankOnly).reverse.dropWhile isBlankOnly).reverse)
  | name :: names, line, s =>
    let line := line.dropWhile isBlankOnly
    assignWords names (line.dropWhile fun c => !isBlankOnly c)
      (s.assign name (String.ofList (line.takeWhile fun c => !isBlankOnly c)))

/-- Reads a line of the input. At the end of the input it fails. -/
def read : Program := fun args _ s =>
  let names := args.filter (· ≠ "-r")
  match cutLine s.input with
  | (some line, rest) =>
    (assignWords names (decodeLossy line).toList { s with input := rest }).succeed
  | (none, line) => (assignWords names (decodeLossy line).toList { s with input := [] }).fail 1

def shift : Program := fun args _ s =>
  { s.succeed with arguments := s.arguments.drop ((args.head?.bind String.toNat?).getD 1) }

/-- An option, or the arguments behind two minus signs. -/
def set : Program := fun args _ s =>
  match args with
  | "-e" :: rest => { s.succeed with
      strict := true, arguments := if rest.isEmpty then s.arguments else rest }
  | "+e" :: _ => { s.succeed with strict := false }
  | "--" :: rest => { s.succeed with arguments := rest }
  | a :: rest =>
    if a.toList.head? = some '-' then s.succeed else { s.succeed with arguments := a :: rest }
  | [] => s.succeed

/-! ## Ends -/

def exitWith : Program := fun args c s =>
  match args with
  | [] => s.exit s.status
  | a :: _ =>
    match a.toNat? with
    | some n => s.exit n
    | none => (s.complain c ("exit: Illegal number: " ++ a) 2).exit 2

def signalNumber? (text : String) : Option Nat :=
  match text.toNat? with
  | some n => if n ≤ signalNames.length then some n else none
  | none =>
    let name := String.ofList ((stripPrefix? "SIG".toList text.toList).getD text.toList)
    (signalNames.idxOf? name).map (· + 1)

/-- The signals that a program does not notice. -/
def isIgnored (signal : Nat) : Bool := signal ∈ [0, 17, 18, 23, 28]

/-- The signals that make a program wait. -/
def isStop (signal : Nat) : Bool := signal ∈ [19, 20, 21, 22]

def receive (signal : Nat) (s : Shell) : Shell :=
  if isIgnored signal then s.succeed
  else if isStop signal then s.finish .expired
  else s.finish (.killed signal)

def termination : Nat := 15

/-- The signal that is asked for, and the numbers of the programs it is for. -/
def killOrder : List String → Option (Nat × List String)
  | "-s" :: name :: rest => (signalNumber? name).map fun n => (n, rest)
  | a :: rest =>
    match a.toList with
    | '-' :: cs => (signalNumber? (String.ofList cs)).map fun n => (n, rest)
    | _ => some (termination, a :: rest)
  | [] => none

/-- Of all programs, only the shell itself can be told to end. -/
def kill : Program := fun args c s =>
  match killOrder args with
  | none => s.complain c "kill: Illegal option" 2
  | some (signal, targets) =>
    if targets.isEmpty then s.complain c "kill: Usage: kill [-s sigspec] pid..." 2
    else if ownNumber ∈ targets then receive signal s
    else s.complain c "kill: No such process" 1

/-! ## Conditions -/

def compareNumbers (op a b : String) : Option Bool :=
  match a.toInt?, b.toInt?, op with
  | some x, some y, "-eq" => some (x == y)
  | some x, some y, "-ne" => some (x != y)
  | some x, some y, "-lt" => some (decide (x < y))
  | some x, some y, "-le" => some (decide (x ≤ y))
  | some x, some y, "-gt" => some (decide (x > y))
  | some x, some y, "-ge" => some (decide (x ≥ y))
  | _, _, _ => none

def unaryTest (t : FileTree) (op a : String) : Option Bool :=
  match op with
  | "-n" => some (a != "")
  | "-z" => some (a == "")
  | "-e" => some (t.exists? a)
  | "-f" => some (t.isFile a)
  | "-d" => some (t.isDirectory a)
  | "-r" => some (t.exists? a)
  | "-w" => some (t.exists? a)
  | "-x" => some (t.isDirectory a)
  | "-s" => some (match t.readContent a with
    | .ok content => !content.bytes.isEmpty
    | .error _ => t.isDirectory a)
  | _ => none

/-- Whether a condition holds; `none` if there is no such condition. -/
def holds? (t : FileTree) : List String → Option Bool
  | [] => some false
  | [a] => some (a != "")
  | "!" :: rest => (holds? t rest).map (!·)
  | [op, a] => unaryTest t op a
  | [a, "=", b] => some (a == b)
  | [a, "==", b] => some (a == b)
  | [a, "!=", b] => some (a != b)
  | [a, op, b] => compareNumbers op a b
  | _ => none

/-- What is wrong with arguments that are no condition. -/
def testComplaint : List String → String
  | [a, op, b] =>
    if op ∈ ["-eq", "-ne", "-lt", "-le", "-gt", "-ge"] then
      "Illegal number: " ++ (if a.toInt?.isNone then a else b)
    else op ++ ": unexpected operator"
  | args => args.headD "" ++ ": unexpected operator"

def test : Program := fun args c s =>
  match holds? s.tree args with
  | some true => s.succeed
  | some false => s.fail 1
  | none => s.complain c ("test: " ++ testComplaint args) 2

def bracket : Program := fun args c s =>
  if args.getLast? = some "]" then test args.dropLast c s
  else s.complain c "[: missing ]" 2

/-! ## By name -/

def builtin? (name : String) : Option Program :=
  match name with
  | ":" => some fun _ _ s => s.succeed
  | "[" => some bracket
  | "cd" => some cd
  | "echo" => some plainEcho
  | "exit" => some exitWith
  | "export" => some export_
  | "kill" => some kill
  | "printf" => some plainPrintf
  | "read" => some read
  | "set" => some set
  | "shift" => some shift
  | "test" => some test
  | "umask" => some fun _ _ s => s.succeed
  | "unset" => some unset
  | "wait" => some fun _ _ s => s.succeed
  | _ => none

end UsageGraph.Shell
