import UsageGraph.Path.Basic

/-! # Command templates

A configured command is a program with its arguments. The placeholders `workdir` and `file`, in
braces, stand for the checkout and for the file to compile.

* `expandCommand`: puts in the two paths, the checkout first.
* `anchorProgram`: makes a program below a directory absolute; a bare name is looked up elsewhere.
-/

namespace UsageGraph
set_option autoImplicit false

def workdirMark : String := "\x7bworkdir\x7d"
def fileMark : String := "\x7bfile\x7d"

def expandCommand (template : List String) (workdir file : String) : List String :=
  template.map fun part => Text.replaceAll fileMark file (Text.replaceAll workdirMark workdir part)

def anchorProgram (command : List String) (base : String) : List String :=
  match command with
  | [] => []
  | program :: args =>
    if !Path.isAbsolute program && decide (1 < (Path.parts program).length) then
      Path.join base program :: args
    else program :: args

end UsageGraph
