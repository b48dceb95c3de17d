import UsageGraph.CommandLine.Arguments
import UsageGraph.Config.Reading

/-! # What can be asked for

* `Action`: the commands.
* `Order`: a command, with the configuration and the database that it is to use.
* `Order.parse`: reads an order from the arguments of the program.
-/

namespace UsageGraph
set_option autoImplicit false

inductive Action where
  /-- Import all repositories that are pending, after those in a list are enqueued. -/
  | importPending (repos : Option String) (concurrency : Option Nat)
  /-- Print the references of a checkout. -/
  | references (path repo : String) (commit : Option String)
  /-- Print the dependency intervals of a clone. -/
  | history (path repo : String)
  /-- Print the version that a range stands for. -/
  | resolve (range : String) (versions : List String) (policy : SelectionPolicy)
  /-- Print the dependency intervals that are stored for a repository. -/
  | intervals (repo : String)
  /-- Print the references to a package that are stored. -/
  | usages (package : String) (version : Option String)
  deriving DecidableEq, Repr

structure Order where
  config : String
  /-- Instead of the database that the configuration names. -/
  database : Option String
  action : Action
  deriving DecidableEq, Repr

/-! ## Forms -/

def helpOption : String × OptionKind := ("help", .stop .help)
def helpLetter : Char × Stop := ('h', .help)

def programForm : Form where
  options := [("config", .value .path), ("db", .value .path), helpOption,
    ("version", .stop .version)]
  letters := [helpLetter, ('V', .version)]
  positionals := []
  repeats := false
  hasCommands := true

def commandForm (options : List (String × OptionKind)) (positionals : List ArgumentKind)
    (repeats : Bool) : Form where
  options := helpOption :: options
  letters := [helpLetter]
  positionals := positionals
  repeats := repeats
  hasCommands := false

/-- The form of a command, and what its arguments ask for. -/
structure ActionForm where
  form : Form
  action? : Arguments → Option Action

def checkoutOf (a : Arguments) : String := a.positionals.headD "."

def importForm : ActionForm where
  form := commandForm [("repos", .value .path), ("concurrency", .value .count)] [] false
  action? a := some (.importPending (a.value? "repos") ((a.value? "concurrency").bind countOf?))

def referencesForm : ActionForm where
  form := commandForm [("repo", .value .text), ("commit", .value .text)] [.path] false
  action? a := (a.value? "repo").map fun repo => .references (checkoutOf a) repo (a.value? "commit")

def historyForm : ActionForm where
  form := commandForm [("repo", .value .text)] [.path] false
  action? a := (a.value? "repo").map fun repo => .history (checkoutOf a) repo

def resolveForm : ActionForm where
  form := commandForm [("first", .flag)] [.text, .text] true
  action? a :=
    let policy := if a.has "first" then SelectionPolicy.first else .highest
    a.positionals.head?.map fun range => .resolve range a.positionals.tail policy

def intervalsForm : ActionForm where
  form := commandForm [] [.text] false
  action? a := a.positionals.head?.map .intervals

def usagesForm : ActionForm where
  form := commandForm [("version", .value .text)] [.text] false
  action? a := a.positionals.head?.map fun package => .usages package (a.value? "version")

def actionForms : List (String × ActionForm) :=
  [("import", importForm), ("refs", referencesForm), ("history", historyForm),
    ("resolve", resolveForm), ("edges", intervalsForm), ("usages", usagesForm)]

/-! ## Orders -/

def ActionForm.read (f : ActionForm) (args : List String) : Except Stop Action := do
  let (a, _) ← f.form.read args
  match f.action? a with
  | some action => return action
  | none => .error .misuse

/-- The help on a command is asked for by the name of the command. -/
def helpOn : List String → Stop
  | [] => .help
  | [name] => if name = "help" ∨ (actionForms.lookup name).isSome then .help else .misuse
  | _ => .misuse

def readAction : List String → Except Stop Action
  | [] => .error .misuse
  | "help" :: names => .error (helpOn names)
  | name :: args =>
    match actionForms.lookup name with
    | some f => f.read args
    | none => .error .misuse

def Order.parse (args : List String) : Except Stop Order := do
  let (a, rest) ← programForm.read args
  let action ← readAction rest
  return ⟨(a.value? "config").getD configName, a.value? "db", action⟩

end UsageGraph
