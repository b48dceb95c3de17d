import UsageGraph.Document.Reading
import UsageGraph.Table

/-! # Taking documents apart

Readers from a document to a value. A structure is written as a record of its fields, or as the
list of its fields in their order.

* `Document.text?`, `Document.nat?`, `Document.texts?`, `Document.textTable?`: simple values.
* `Fields`: the fields of a structure, found by `Document.fields?`. A record may hold further
  members, but names no field twice; a list holds no more values than there are fields.
* `Fields.required`, `Fields.optional`, `Fields.defaulted`, `Fields.spare`: one field.
-/

namespace UsageGraph
set_option autoImplicit false

namespace Document

/-! ## Simple values -/

def text? : Document → Option String
  | text s => s
  | _ => none

/-- A whole number from `0` to `max`. -/
def nat? (max : Nat) : Document → Option Nat
  | number n => n.toInt?.bind fun v => if 0 ≤ v ∧ v ≤ max then some v.toNat else none
  | _ => none

def items? {α : Type} (read : Document → Option α) : Document → Option (List α)
  | list items => items.mapM read
  | _ => none

def texts? : Document → Option (List String) := items? text?

def textMember? (member : Option String × Document) : Option (String × String) := do
  let key ← member.1
  let value ← text? member.2
  return (key, value)

/-- A record of texts; of members with one name the last counts. -/
def textTable? : Document → Option (Table String)
  | record members => (members.mapM textMember?).map Table.ofList
  | _ => none

end Document

/-! ## Structures -/

structure Fields where
  /-- The fields were given as a list. -/
  positional : Bool
  values : List (String × Document)

namespace Document

/-- The members of a record that are named in `names`, none of them twice. -/
def membersOf (names : List String) : List (Option String × Document) →
    Option (List (String × Document))
  | [] => some []
  | (none, _) :: _ => none
  | (some key, d) :: rest =>
    match membersOf names rest with
    | none => none
    | some found =>
      if key ∈ names then
        if found.any fun p => p.1 == key then none else some ((key, d) :: found)
      else some found

def fields? (names : List String) : Document → Option Fields
  | record members => (membersOf names members).map fun found => ⟨false, found⟩
  | list items =>
    if items.length ≤ names.length then some ⟨true, names.zip items⟩ else none
  | _ => none

end Document

namespace Fields
variable {α : Type} (f : Fields) (name : String) (read : Document → Option α)

def get? : Option Document := f.values.lookup name

/-- The field has to be there. -/
def required : Option α := (f.get? name).bind read

/-- A value or `null`. -/
def nullable : Document → Option (Option α)
  | .null => some none
  | d => (read d).map some

/-- A record may leave the field out; a list may not. -/
def optional : Option (Option α) :=
  match f.get? name with
  | none => if f.positional then none else some none
  | some d => nullable read d

/-- The field may be left out in both forms, and stands for `value` then. -/
def defaulted (value : α) : Option α :=
  match f.get? name with
  | none => some value
  | some d => read d

/-- The field may be left out in both forms, or be `null`. -/
def spare : Option (Option α) := f.defaulted name (nullable read) none

end Fields
end UsageGraph
