import UsageGraph.Shell.Builtin
import UsageGraph.Shell.Expansion

/-! # Running scripts

* `Script.run`: what a script does to a shell, given how scripts inside of it are run.
* `interpret`: runs the text of a script. Scripts may start scripts down to a depth.
* `shellProgram`: the shell as a program with arguments.
* `Programs.standard`: a machine with a shell and the programs that it knows.
-/

namespace UsageGraph
open Text
set_option autoImplicit false

namespace Shell

/-- Runs the text of a script. -/
abbrev Interpreter := String → Channels → Shell → Shell

/-! ## Scripts inside of scripts -/

/-- Collects what is printed in a stream of its own. -/
def collecting (run : Sink → Shell → Shell) (s : Shell) : Bytes × Shell :=
  let index := s.streams.length
  let s := run (.stream index) { s with streams := s.streams ++ [[]] }
  ((s.streams[index]?).getD [], { s with streams := s.streams.take index })

/-- Only the end of a part ends with it; a whole shell that was killed or ran out of time is over. -/
def Ending.outlives : Ending → Bool
  | .exited => false
  | _ => true

/-- Goes on after a part of a script with what was set before it. -/
def resume (before after : Shell) : Shell :=
  { after with
    tree := { after.tree with cwd := before.tree.cwd }
    name := before.name
    arguments := before.arguments
    bindings := before.bindings
    exported := before.exported
    strict := before.strict
    ending := after.ending.filter Ending.outlives }

def apart (run : Shell → Shell) (s : Shell) : Shell := resume s (run s)

def printing (interpreter : Interpreter) (c : Channels) : Printing := fun script s =>
  collecting (fun sink => apart (interpreter script { c with out := sink })) s

/-! ## Redirections -/

def cannotCreate (path : String) : IoCause → String
  | .notFound => "cannot create " ++ path ++ ": Directory nonexistent"
  | cause => "cannot create " ++ path ++ ": " ++ cause.wording

def cannotOpen (path : String) : IoCause → String
  | .notFound => "cannot open " ++ path ++ ": No such file"
  | cause => "cannot open " ++ path ++ ": " ++ cause.wording

/-- What a device stands for. -/
def device? (c : Channels) (path : String) : Option Sink :=
  if path = nullDevice then some .nowhere
  else if path = "/dev/stdout" then some c.out
  else if path = "/dev/stderr" then some c.err
  else none

/-- Opens a file for output, emptied unless the output is appended. -/
def openFile (path : String) (keep : Bool) (t : FileTree) : Except IoCause (Sink × FileTree) := do
  let at_ ← t.locate path
  if keep && t.isFile path then return (.file at_, t)
  else return (.file at_, ← t.writeFile path (.text ""))

def Channels.set (c : Channels) (channel : Nat) (sink : Sink) : Channels :=
  match channel with
  | 1 => { c with out := sink }
  | 2 => { c with err := sink }
  | _ => c

/-- Where a channel goes, by its number; `-` closes a channel. -/
def Channels.sink? (c : Channels) (name : String) : Option Sink :=
  match name with
  | "1" => some c.out
  | "2" => some c.err
  | "-" => some .nowhere
  | _ => none

def redirectOutput (channel : Nat) (path : String) (keep : Bool) (c : Channels) (s : Shell) :
    Option Channels × Shell :=
  match device? c path with
  | some sink => (some (c.set channel sink), s)
  | none =>
    match openFile path keep s.tree with
    | .ok (sink, t) => (some (c.set channel sink), { s with tree := t })
    | .error cause => (none, s.complain c (cannotCreate path cause) 2)

def redirectInput (path : String) (c : Channels) (s : Shell) : Option Channels × Shell :=
  match readBytes s.tree path with
  | .ok bytes => (some c, { s with input := bytes })
  | .error cause => (none, s.complain c (cannotOpen path cause) 2)

def duplicate (channel : Nat) (name : String) (c : Channels) (s : Shell) :
    Option Channels × Shell :=
  match c.sink? name with
  | some sink => (some (c.set channel sink), s)
  | none => (none, s.complain c "Syntax error: Bad fd number" 2)

def redirect (run : Printing) (r : Redirection) (c : Channels) (s : Shell) :
    Option Channels × Shell :=
  let (target, s) := textOf run r.target s
  match r.direction with
  | .input => redirectInput target c s
  | .output => redirectOutput r.channel target false c s
  | .append => redirectOutput r.channel target true c s
  | .duplicate => duplicate r.channel target c s

/-- The redirections from left to right, up to one that is refused. -/
def redirectAll (run : Printing) : List Redirection → Channels → Shell → Option Channels × Shell
  | [], c, s => (some c, s)
  | r :: rest, c, s =>
    match redirect run r c s with
    | (some c, s) => redirectAll run rest c s
    | (none, s) => (none, s)

/-- Runs a command with its redirections. The input is what it was before, afterwards. -/
def redirected (interpreter : Interpreter) (rs : List Redirection) (c : Channels)
    (run : Channels → Shell → Shell) (s : Shell) : Shell :=
  match redirectAll (printing interpreter c) rs c s with
  | (some c, s') =>
    let after := run c s'
    if rs.any fun r => r.direction = .input then { after with input := s.input } else after
  | (none, s') => { s' with input := s.input }

/-! ## Commands -/

def binaryDirectories : List String := ["/bin/", "/usr/bin/"]

/-- The name of a program that is named with its directory. -/
def installedName? (path : String) : Option String :=
  binaryDirectories.findSome? fun dir =>
    (stripPrefix? dir.toList path.toList).map String.ofList

/-- The options of the shell, in front of a script. -/
structure Options where
  command : Bool
  strict : Bool

def options : List String → Options × List String
  | a :: rest =>
    match a.toList with
    | '-' :: c :: cs =>
      let p := options rest
      (⟨p.1.command || 'c' ∈ c :: cs, p.1.strict || 'e' ∈ c :: cs⟩, p.2)
    | _ => (⟨false, false⟩, a :: rest)
  | [] => (⟨false, false⟩, [])

/-- A new shell, which knows only what is handed on to programs. -/
def started (s : Shell) (name : String) (arguments : List String) (strict : Bool) : Shell :=
  { s with
    name := name, arguments := arguments, bindings := s.environment, status := 0, strict := strict }

def scriptFile (interpreter : Interpreter) (path : String) (arguments : List String)
    (strict : Bool) (c : Channels) (s : Shell) : Shell :=
  match readBytes s.tree path with
  | .ok bytes => interpreter (decodeLossy bytes) c (started s path arguments strict)
  | .error _ =>
    (s.write c.err ("sh: 0: cannot open " ++ path ++ ": No such file\n")).fail 2

/-- A script as the first argument behind the options, or in a file, or in the input. -/
def shellProgram (interpreter : Interpreter) : Program := fun args c s =>
  let (o, rest) := options args
  apart (fun s => match o.command, rest with
    | true, script :: rest =>
      interpreter script c (started s (rest.headD "sh") rest.tail o.strict)
    | true, [] => (s.write c.err "sh: 0: -c requires an argument\n").fail 2
    | false, path :: rest => scriptFile interpreter path rest o.strict c s
    | false, [] =>
      interpreter (decodeLossy s.input) c { started s "sh" [] o.strict with input := [] }) s

def installed? (interpreter : Interpreter) (name : String) : Option Program :=
  if name = "sh" ∨ name = "dash" then some (shellProgram interpreter) else program? name

/-- A command that names a file starts it, which needs a right that no file has. -/
def startFile (path : String) (c : Channels) (s : Shell) : Shell :=
  if s.tree.exists? path then s.complain c (path ++ ": Permission denied") 126
  else s.complain c (path ++ ": not found") 127

/-- What a signal did to a program, for the signals from number one on. -/
def signalNotices : List String :=
  ["Hangup", "", "Quit", "Illegal instruction", "Trace/breakpoint trap", "Aborted", "Bus error",
    "Floating point exception", "Killed", "User defined signal 1", "Segmentation fault",
    "User defined signal 2", "", "Alarm clock", "Terminated"]

def notice (signal : Nat) : String :=
  match signalNotices[signal - 1]? with
  | some "" => ""
  | some text => text ++ "\n"
  | none => "Signal " ++ toString signal ++ "\n"

/-- That a program was killed is told, and its status says so. -/
def noticed (c : Channels) (s : Shell) : Shell :=
  match s.ending with
  | some (.killed signal) =>
    { s.write c.err (notice signal) with status := 128 + signal, ending := none }
  | _ => s

def runProgram (interpreter : Interpreter) (name : String) (args : List String) (c : Channels)
    (s : Shell) : Shell :=
  if '/' ∈ name.toList then
    match (installedName? name).bind (installed? interpreter) with
    | some program => noticed c (program args c s)
    | none => startFile name c s
  else
    match installed? interpreter name with
    | some program => noticed c (program args c s)
    | none => s.complain c (name ++ ": not found") 127

/-- Puts a program in the place of the shell. -/
def replaced (s : Shell) : Shell := if s.ending.isSome then s else s.exit s.status

def invoke (interpreter : Interpreter) : List String → Channels → Shell → Shell
  | [], _, s => s
  | "eval" :: args, c, s => interpreter (join " " args) c s
  | "exec" :: name :: args, c, s => replaced (runProgram interpreter name args c s)
  | name :: args, c, s =>
    match builtin? name with
    | some command => command args c s
    | none => runProgram interpreter name args c s

/-- What is assigned in front of a command counts for the command alone. -/
def command (interpreter : Interpreter) (words : List Word) (rs : List Redirection) (c : Channels)
    (s : Shell) : Shell :=
  let run := printing interpreter c
  let (assignments, words) := splitAssignments words
  let (fields, s) := expand run words s
  redirected interpreter rs c (fun c s =>
    if fields.isEmpty then assignAll run assignments s.succeed
    else
      let shared := assignments.foldl (fun s a => s.share a.1) (assignAll run assignments s)
      let after := invoke interpreter fields c shared
      if assignments.isEmpty then after
      else { after with bindings := s.bindings, exported := s.exported }) s

/-! ## Scripts -/

/-- A strict shell ends at a failure that nothing asks about. -/
def judged (tested : Bool) (s : Shell) : Shell :=
  if s.strict && !tested && s.status != 0 && s.ending.isNone then s.exit s.status else s

/-- Goes on unless the shell has ended. -/
def next (s : Shell) (f : Shell → Shell) : Shell := if s.ending.isSome then s else f s

/-- The time that a round of a loop takes at least. -/
def roundNanos : Nat := 20000

/-- Rounds of a loop, with the status of the last one. -/
def rounds (whileFails : Bool) (condition body : Shell → Shell) : Nat → Nat → Shell → Shell
  | 0, _, s => s.finish .expired
  | fuel + 1, status, s =>
    next (s.spend roundNanos) fun s => next (condition s) fun s =>
      if (s.status != 0) == whileFails then
        next (body s) fun s => rounds whileFails condition body fuel s.status s
      else s.fail status

/-- There is time for a limited number of rounds. -/
def repeatedly (whileFails : Bool) (condition body : Shell → Shell) (s : Shell) : Shell :=
  rounds whileFails condition body (s.nanosLeft / roundNanos + 1) 0 s

def Script.run (interpreter : Interpreter) : Script → Bool → Channels → Shell → Shell
  | .skip, _, _, s => s
  | .command words rs, tested, c, s => judged tested (Shell.command interpreter words rs c s)
  | .sequence first second, tested, c, s =>
    next (first.run interpreter tested c s) (second.run interpreter tested c)
  | .both first second, tested, c, s =>
    next (first.run interpreter true c s) fun s =>
      if s.status = 0 then second.run interpreter tested c s else s
  | .either first second, tested, c, s =>
    next (first.run interpreter true c s) fun s =>
      if s.status = 0 then s else second.run interpreter tested c s
  | .negation body, _, c, s =>
    next (body.run interpreter true c s) fun s => if s.status = 0 then s.fail 1 else s.succeed
  | .pipe first second, tested, c, s =>
    let (bytes, after) := collecting
      (fun sink => apart (first.run interpreter true { c with out := sink })) s
    next after fun s' =>
      let after := apart (second.run interpreter tested c) { s' with input := bytes }
      judged tested { after with input := s.input }
  | .subshell body rs, tested, c, s =>
    judged tested (redirected interpreter rs c (fun c => apart (body.run interpreter tested c)) s)
  | .group body rs, tested, c, s =>
    redirected interpreter rs c (body.run interpreter tested) s
  | .branch condition yes no, tested, c, s =>
    next (condition.run interpreter true c s) fun s =>
      if s.status = 0 then yes.run interpreter tested c s
      else no.run interpreter tested c s.succeed
  | .loop whileFails condition body, tested, c, s =>
    repeatedly whileFails (condition.run interpreter true c) (body.run interpreter tested c) s
  | .each name values body, tested, c, s =>
    let (fields, s) := expand (printing interpreter c) values s
    fields.foldl (fun s value => next s fun s => body.run interpreter tested c (s.assign name value))
      s.succeed
  | .choice subject patterns body otherwise, tested, c, s =>
    let run := printing interpreter c
    let (text, s) := textOf run subject s
    let (found, s) := matchesOne run text patterns s
    if found then body.run interpreter tested c s.succeed
    else otherwise.run interpreter tested c s.succeed

/-- The text of a script, with scripts inside of it down to `depth` levels. -/
def interpret : Nat → Interpreter
  | 0, _, c, s => s.complain c "Too many levels" 2
  | depth + 1, text, c, s =>
    match Script.parse text with
    | .error complaint => (s.complain c complaint 2).exit 2
    | .ok script => script.run (interpret depth) false c s

/-! ## The machine -/

def maxDepth : Nat := 64

/-- The shell that starts a program on behalf of nobody. -/
def host (cwd : String) (limit : Duration) (t : FileTree) : Shell where
  tree := { t with cwd := cwd }
  name := "sh"
  arguments := []
  bindings := .empty
  exported := []
  status := 0
  input := []
  streams := [[], []]
  nanosLeft := limit.nanos
  strict := false
  ending := none

/-- A program that a shell started for nobody but itself takes its ending. -/
def toEnd (s : Shell) : ProgramEnd :=
  let stdout := (s.streams[0]?).getD []
  let stderr := (s.streams[1]?).getD []
  match s.ending with
  | some .expired => .expired
  | some (.killed signal) => .ended ⟨.signal signal, stdout, stderr⟩
  | _ => .ended ⟨.code s.status, stdout, stderr⟩

def channels : Channels := ⟨.stream 0, .stream 1⟩

/-- The program that an invocation starts, or why none is started. -/
def findProgram (t : FileTree) (name : String) : Except IoCause Program :=
  if name = "" then .error .notFound
  else if '/' ∈ name.toList then
    match (installedName? name).bind (installed? (interpret maxDepth)) with
    | some program => .ok program
    | none => do
      let _ ← t.entry name
      .error .permissionDenied
  else
    match installed? (interpret maxDepth) name with
    | some program => .ok program
    | none => .error .notFound

/-- The directory is entered before the program is looked for. -/
def prepare (call : Invocation) (t : FileTree) : Except IoCause (String × Program) := do
  if (call.cwd :: call.program :: call.args).any fun a => '\x00' ∈ a.toList then
    .error .nullInCommand
  else
    let cwd ← t.directory call.cwd
    let program ← findProgram { t with cwd := cwd } call.program
    return (cwd, program)

end Shell

/-- Running a program takes some time, so that no time at all is never enough. -/
def Programs.standard : Programs where
  start call t :=
    match Shell.prepare call t with
    | .error cause => (.refused cause, t)
    | .ok (cwd, program) =>
      let s := ((Shell.host cwd call.limit t).spend 0).next (program call.args Shell.channels)
      (s.toEnd, { s.tree with cwd := t.cwd })

end UsageGraph
