import UsageGraph.FileTree.Tasks
import UsageGraph.Shell.Format
import UsageGraph.Shell.State

/-! # The programs of the machine

Small programs that print, and that look at files or change them.

* `Program`: a program, given its arguments, as a change to the shell that it is started from.
* `program?`: the program of a name.
-/

namespace UsageGraph.Shell
open Text
set_option autoImplicit false

abbrev Program := List String → Channels → Shell → Shell

/-- Does something for every argument. The status is that of the last one that fails. -/
def forEach (act : String → Shell → Shell) (args : List String) (s : Shell) : Shell :=
  args.foldl (fun s a => act a s) s.succeed

/-! ## Output -/

def printArguments (c : Channels) (args : List String) (newline : Bool) (s : Shell) : Shell :=
  (s.write c.out (join " " args ++ if newline then "\n" else "")).succeed

def printEscaped (c : Channels) (args : List String) (newline : Bool) (s : Shell) : Shell :=
  let (bytes, stopped) := unescape (join " " args)
  ((s.writeBytes c.out bytes).write c.out (if newline && !stopped then "\n" else "")).succeed

/-- Options are a minus sign with some of the letters `n`, `e` and `E`. -/
def isEchoOption (a : String) : Bool :=
  match a.toList with
  | '-' :: c :: cs => (c :: cs).all fun c => c ∈ ['n', 'e', 'E']
  | _ => false

/-- The last of `e` and `E` decides whether escapes are replaced. -/
def asksEscapes (options : List String) : Bool :=
  ((options.flatMap String.toList).filter fun c => c = 'e' ∨ c = 'E').getLast? = some 'e'

def echo : Program := fun args c s =>
  let options := args.takeWhile isEchoOption
  let args := args.drop options.length
  let newline := !options.any fun o => 'n' ∈ o.toList
  if asksEscapes options then printEscaped c args newline s else printArguments c args newline s

def printf : Program := fun args c s =>
  match args with
  | [] => (s.write c.err "printf: missing operand\n").fail 1
  | template :: args => (s.writeBytes c.out (format template args)).succeed

/-! ## Files -/

def nullDevice : String := "/dev/null"

def readBytes (t : FileTree) (path : String) : Except IoCause Bytes :=
  if path = nullDevice then .ok [] else (t.readContent path).map Content.bytes

def catOne (c : Channels) (path : String) (s : Shell) : Shell :=
  if path = "-" then { s.writeBytes c.out s.input with input := [] }
  else
    match readBytes s.tree path with
    | .ok bytes => s.writeBytes c.out bytes
    | .error cause => s.report c "cat" path cause

def cat : Program := fun args c s =>
  forEach (catOne c) (if args.isEmpty then ["-"] else args) s

/-- Changes the file tree by a task, and tells its refusal. -/
def change (c : Channels) (complaint : String) (t : Task FileTree Unit) (s : Shell) : Shell :=
  let o := t s.tree
  let s := { s with tree := o.state }
  match o.result with
  | .error (.io cause) => (s.write c.err (complaint ++ ": " ++ cause.wording ++ "\n")).fail 1
  | .error _ => s.fail 1
  | .ok () => s

/-- The options, which start with a minus sign, and the other arguments. -/
def splitOptions (args : List String) : List String × List String :=
  args.partition fun a => a.toList.head? = some '-' && a ≠ "-"

def hasOption (options : List String) (letters : List Char) : Bool :=
  options.any fun o => o.toList.any (· ∈ letters)

def mkdir : Program := fun args c s =>
  let (options, paths) := splitOptions args
  forEach (fun path => change c ("mkdir: cannot create directory ‘" ++ path ++ "’")
    (if hasOption options ['p'] then FileTree.makeDirectories path
      else FileTree.makeDirectory path)) paths s

def removal (options : List String) (path : String) : Task FileTree Unit := do
  match (← Task.state).entry path with
  | .ok (.file _) => Task.change fun t => t.remove path
  | .ok .directory =>
    if hasOption options ['r', 'R'] then FileTree.removeAll path
    else Task.fail (.io .isADirectory)
  | .error cause => if hasOption options ['f'] then return () else Task.fail (.io cause)

def rm : Program := fun args c s =>
  let (options, paths) := splitOptions args
  forEach (fun path => change c ("rm: cannot remove '" ++ path ++ "'") (removal options path)) paths s

def touched (path : String) : Task FileTree Unit := do
  if (← Task.state).exists? path then return () else FileTree.write path (.text "")

def touch : Program := fun args c s =>
  forEach (fun path => change c ("touch: cannot touch '" ++ path ++ "'") (touched path)) args s

/-! ## Time -/

/-- A number of seconds with a fraction, in nanoseconds. -/
def seconds? (cs : List Char) : Option Nat :=
  let (whole, fraction) := (splitOnce '.' cs).getD (cs, [])
  if (whole ++ fraction).isEmpty || (whole ++ fraction).any (fun c => !isAsciiDigit c) then none
  else
    let digits := (fraction ++ List.replicate 9 '0').take 9
    (String.ofList (whole ++ digits)).toNat?

def unitSeconds? : Char → Option Nat
  | 's' => some 1
  | 'm' => some 60
  | 'h' => some 3600
  | 'd' => some 86400
  | _ => none

def interval? (text : String) : Option Nat :=
  match text.toList.getLast?.bind unitSeconds? with
  | some unit => (seconds? text.toList.dropLast).map (· * unit)
  | none => seconds? text.toList

def sleep : Program := fun args c s =>
  match args.find? fun a => (interval? a).isNone with
  | some a => (s.write c.err ("sleep: invalid time interval ‘" ++ a ++ "’\n" ++
      "Try 'sleep --help' for more information.\n")).fail 1
  | none => s.succeed.spend ((args.filterMap interval?).foldl (· + ·) 0)

/-! ## By name -/

def pwd : Program := fun _ c s => (s.write c.out (s.tree.cwd ++ "\n")).succeed

def program? (name : String) : Option Program :=
  match name with
  | "cat" => some cat
  | "echo" => some echo
  | "false" => some fun _ _ s => s.fail 1
  | "mkdir" => some mkdir
  | "printf" => some printf
  | "pwd" => some pwd
  | "rm" => some rm
  | "sleep" => some sleep
  | "touch" => some touch
  | "true" => some fun _ _ s => s.succeed
  | _ => none

end UsageGraph.Shell
