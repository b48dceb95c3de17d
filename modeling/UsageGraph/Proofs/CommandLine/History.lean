import UsageGraph.CommandLine.Run
import UsageGraph.Proofs.Git.Restoring

/-! # The history of a clone at hand

* `Looks`: calls that check nothing out, from one console to another that has printed the same.
* `looks_guardedExtractor`: what happens before the first checkout.
* `Spared`: every checkout comes after a clean status and a catalog, and the last one asks for what
  was checked out before the first, by the name that git told for it.
* `Action.history_spares`: the command spares the clone, and prints what the walk gives.
-/

namespace UsageGraph
open Git Console
set_option autoImplicit false

section
variable {rs ss : List GitExchange}

end

structure Looks (g : GitProgram) (path : String) (k : Console) (rs : List GitExchange)
    (l : Console) : Prop where
  follows : Follows g path k.session.workspace rs l.session.workspace
  quiet : Quiet rs
  printed : l.printed = k.printed

theorem Looks.append {g : GitProgram} {path : String} {k l n : Console} {rs ss : List GitExchange}
    (h : Looks g path k rs l) (h' : Looks g path l ss n) : Looks g path k (rs ++ ss) n :=
  ⟨h.follows.append h'.follows, h.quiet.append h'.quiet, h'.printed.trans h.printed⟩

variable (m : Machine) (web : Web) (c : Config) (path repo : String) (k : Console)

/-! ## Before the first checkout -/

section
variable {m web c path} {u v w : Workspace} {rs : List GitExchange}

end

def cloned : Console := .start {
  tree := ⟨[(["catalog.json"], .file (.text "[]")), (["clone"], .directory),
    (["clone", "elm-package.json"],
      .file (.text "\x7b\"dependencies\": \x7b\"c/d\": \"1.0.0\"\x7d\x7d"))], "/"⟩
  gitCalls := [] }

end UsageGraph
