import UsageGraph.Config.Basic
import UsageGraph.Document.Decode
import UsageGraph.FileTree.Tasks
import UsageGraph.Text.Blank
import UsageGraph.Yaml.Node

/-! # Reading a configuration file

A mapping of sections. Whatever a file leaves out keeps its default, and sections and settings of
other names are passed over.

* `Settings`: the settings of one section, none of which is given twice.
* `text?`, `count?`, `optional?`, `texts?`, `policy?`: the readers of one setting.
* `Config.parse`: reads the text of a file.
* `Config.loadOrDefault`: the configuration in a file, or the defaults where there is no such file.
-/

namespace UsageGraph
open Text
set_option autoImplicit false

namespace Yaml

/-! ## Scalars -/

def nullTag : String := "tag:yaml.org,2002:null"
def integerTag : String := "tag:yaml.org,2002:int"

def isNullText (s : String) : Bool := s ∈ ["null", "Null", "NULL", "~"]

/-- Every scalar is a text. -/
def text? : Node → Option String
  | .scalar _ _ s => some s
  | _ => none

/-- Digits of a base, at least one of them. -/
def digits? (base : Nat) (s : List Char) : Option Nat :=
  if s = [] then none
  else (s.mapM fun c => (hexValue? c).filter (· < base)).map fun ds =>
    ds.foldl (fun n d => base * n + d) 0

/-- A number with a prefix for its base: sixteen, eight or two. -/
def basedNumber? : List Char → Option Nat
  | '0' :: 'x' :: s => digits? 16 s
  | '0' :: 'o' :: s => digits? 8 s
  | '0' :: 'b' :: s => digits? 2 s
  | _ => none

def unsigned (s : List Char) : List Char :=
  match s with
  | '+' :: rest => rest
  | _ => s

/-- A number in base ten has no zero in front of other digits. -/
def natural? (s : List Char) : Option Nat :=
  let s := unsigned s
  match (basedNumber? s).filter (· ≤ maxNumber) with
  | some n => some n
  | none => if hasSpareZero s then none else (digits? 10 s).filter (· ≤ maxNumber)

/-- A number is written plainly, or tagged and in a literal block. -/
def count? : Node → Option Nat
  | .scalar tag style s =>
    if style = .plain ∨ (style = .literal ∧ tag = some integerTag) then natural? s.toList else none
  | _ => none

/-- Whether a scalar stands for no value; `none` if its tag says so and its text does not. -/
def isAbsent? (tag : Option String) (style : Style) (s : String) : Option Bool :=
  if style ≠ .plain then some false
  else
    match tag with
    | some t => if t = nullTag then (if isNullText s then some true else none) else some false
    | none => some (s = "" || isNullText s)

/-- Nothing at all is written. -/
def isBlank : Node → Bool
  | .scalar _ .plain "" => true
  | _ => false

/-! ## Collections -/

namespace Stream
variable {α : Type} (s : Stream) (read : Node → Option α)

/-- Reads a node, or the one that it is an alias for. -/
def follow (n : Node) : Option α := (s.resolve n).bind read

def optional? (n : Node) : Option (Option α) :=
  s.follow (fun
    | .scalar tag style t =>
      match isAbsent? tag style t with
      | none => none
      | some true => some none
      | some false => (read (.scalar tag style t)).map some
    | n => (read n).map some) n

def texts? : Node → Option (List String) :=
  s.follow fun
    | .list _ items => items.mapM (s.follow text?)
    | n => if isBlank n then some [] else none

/-- A policy is named by a text, or by a tag on nothing. -/
def policy? : Node → Option SelectionPolicy :=
  let named (t : String) : Option SelectionPolicy :=
    if t = "highest" then some .highest else if t = "first" then some .first else none
  s.follow fun
    | .scalar (some tag) style t =>
      match tag.toList with
      | '!' :: name =>
        if style = .plain ∧ (t = "" ∨ isNullText t) then named (String.ofList name) else none
      | _ => named t
    | .scalar none _ t => named t
    | _ => none

/-- The pairs of a section whose keys are in `names`, none of them twice. -/
def settingsOf (names : List String) : List (Node × Node) → Option (List (String × Node))
  | [] => some []
  | (k, v) :: rest =>
    match s.follow text? k, settingsOf names rest with
    | some name, some found =>
      if name ∈ names then
        if found.any fun p => p.1 == name then none else some ((name, v) :: found)
      else some found
    | _, _ => none

def settings? (names : List String) : Node → Option (List (String × Node)) :=
  s.follow fun
    | .mapping _ pairs => s.settingsOf names pairs
    | n => if isBlank n then some [] else none

end Stream

/-- The setting of a name, or a default. -/
def setting {α : Type} (found : List (String × Node)) (name : String) (read : Node → Option α)
    (default : α) : Option α :=
  match found.lookup name with
  | some n => read n
  | none => some default

end Yaml

/-- The name of the file that is looked for unless another one is given. -/
def configName : String := "xref-indexer.yml"

namespace Config
open Yaml

/-! ## Sections -/

variable (s : Stream)

def workers? (n : Node) : Option Workers := do
  let f ← s.settings? ["concurrency", "max_commits"] n
  let d := Workers.default
  let concurrency ← setting f "concurrency" (s.follow count?) d.concurrency
  let maxCommits ← setting f "max_commits" (s.follow count?) d.maxCommits
  return ⟨concurrency, maxCommits⟩

def compiler? (n : Node) : Option CompilerSettings := do
  let f ← s.settings? ["make_command", "install_command", "timeout_secs", "language_version"] n
  let d := CompilerSettings.default
  let make ← setting f "make_command" s.texts? d.makeCommand
  let install ← setting f "install_command" s.texts? d.installCommand
  let timeout ← setting f "timeout_secs" (s.follow count?) d.timeoutSecs
  let language ← setting f "language_version" (s.follow text?) d.languageVersion
  return ⟨make, install, timeout, language⟩

def paths? (n : Node) : Option PathSettings := do
  let f ← s.settings? ["repos_dir", "references_dir", "database"] n
  let d := PathSettings.default
  let repos ← setting f "repos_dir" (s.follow text?) d.repos
  let references ← setting f "references_dir" (s.optional? text?) d.references
  let database ← setting f "database" (s.follow text?) d.database
  return ⟨repos, references, database⟩

def catalog? (n : Node) : Option CatalogSettings := do
  let f ← s.settings? ["source", "selection"] n
  let d := CatalogSettings.default
  let source ← setting f "source" (s.follow text?) d.source
  let selection ← setting f "selection" s.policy? d.selection
  return ⟨source, selection⟩

def github? (n : Node) : Option String := do
  let f ← s.settings? ["host"] n
  setting f "host" (s.follow text?) defaultHost

def ofNode? (n : Node) : Option Config := do
  let f ← s.settings? ["workers", "compiler", "paths", "catalog", "github"] n
  let d := Config.default
  let workers ← setting f "workers" (workers? s) d.workers
  let compiler ← setting f "compiler" (compiler? s) d.compiler
  let paths ← setting f "paths" (paths? s) d.paths
  let catalog ← setting f "catalog" (catalog? s) d.catalog
  let host ← setting f "github" (github? s) d.host
  return ⟨workers, compiler, paths, catalog, host⟩

/-! ## Files -/

def parse? (content : String) : Option Config := do
  let s ← Stream.parse? content
  match s.root with
  | none => return .default
  | some n => ofNode? s n

/-- A file has to be well-formed before its values are looked at. -/
def parse (content : String) : Except Fault Config :=
  match parse? content with
  | none => .error .yaml
  | some c => c.validate.map fun _ => c

def loadOrDefault (path : String) : Task FileTree Config := do
  let t ← Task.state
  if t.exists? path then
    Task.ofResult (ofIo (t.readText path) >>= parse)
  else
    Task.report (.debug ("No config at " ++ path ++ ", using defaults"))
    return .default

end Config
end UsageGraph
