import UsageGraph.Yaml.Token

/-! # Nodes of a YAML text

* `Node`: a scalar, a list, a mapping, or an alias for a node that was named by an anchor.
* `Composer`: the tokens to read, the anchors seen and the tag handles in force.
* `readNode`: one node. `block` says that blocks are allowed here, `hanging` that a list may start
  without more indentation than the mapping around it.
* `Stream`, `Stream.parse?`: the one node of a text that holds at most one document.
-/

namespace UsageGraph.Yaml
set_option autoImplicit false

inductive Node where
  | scalar (tag : Option String) (style : Style) (text : String)
  | list (tag : Option String) (items : List Node)
  | mapping (tag : Option String) (pairs : List (Node × Node))
  /-- The node with this number. -/
  | alias (target : Nat)
  deriving Repr, Inhabited

namespace Node

/-- What stands where nothing is written. -/
def blank : Node := scalar none .plain ""

end Node

/-! ## Reading tokens -/

structure Composer where
  tokens : List Token
  /-- The number of the last node with each anchor. -/
  anchors : List (String × Nat)
  targets : List (Nat × Node)
  handles : List (String × String)

abbrev Compose (α : Type) := StateT Composer Option α

namespace Compose

def peek : Compose (Option Token) := return (← get).tokens.head?

def skip : Compose Unit := modify fun s => { s with tokens := s.tokens.drop 1 }

def refuse {α : Type} : Compose α := StateT.lift none

/-- Takes the token `t`, which has to come next. -/
def expect (t : Token) : Compose Unit := do
  if (← peek) == some t then skip else refuse

def nextIs (ts : List Token) : Compose Bool := return (← peek).any fun t => t ∈ ts

/-! ## Properties -/

/-- The handles that need no directive. -/
def standardHandles : List (String × String) := [("!", "!"), ("!!", "tag:yaml.org,2002:")]

def anchor? : Compose (Option String) := do
  match ← peek with
  | some (.anchor name) =>
    skip
    return some name
  | _ => return none

def tag? : Compose (Option (String × String)) := do
  match ← peek with
  | some (.tag handle suffix) =>
    skip
    return some (handle, suffix)
  | _ => return none

/-- A tag in full. The handle has to be known. -/
def fullTag : Option (String × String) → Compose (Option String)
  | none => return none
  | some (handle, suffix) => do
    if handle = "" then return some suffix
    else
      match (← get).handles.lookup handle with
      | some start => return some (start ++ suffix)
      | none => refuse

/-- An anchor and a tag, in either order. -/
def properties : Compose (Option String × Option String) := do
  match ← anchor? with
  | some name => return (some name, ← fullTag (← tag?))
  | none =>
    let tag ← tag?
    let name ← if tag.isSome then anchor? else pure none
    return (name, ← fullTag tag)

/-- Gives a number to a node that starts here. Numbers count the different anchors. -/
def enter : Option String → Compose (Option Nat)
  | none => return none
  | some name => do
    let s ← get
    let number := s.anchors.length
    set { s with anchors := (name, number) :: s.anchors.filter fun p => p.1 ≠ name }
    return some number

def leave (number : Option Nat) (n : Node) : Compose Node := do
  match number with
  | none => return n
  | some k =>
    modify fun s => { s with targets := (k, n) :: s.targets }
    return n

def aliasNode (name : String) : Compose Node := do
  match (← get).anchors.lookup name with
  | some number => return .alias number
  | none => refuse

/-! ## Nodes -/

/-- The tag `!` only says that a scalar is to be taken as it is written. -/
def scalarTag (tag : Option String) : Option String := tag.filter (· ≠ "!")

mutual

def node (block hanging : Bool) : Nat → Compose Node
  | 0 => refuse
  | fuel + 1 => do
    match ← peek with
    | some (.alias name) =>
      skip
      aliasNode name
    | _ =>
      let (name, tag) ← properties
      let number ← enter name
      let n ← content block hanging (name.isSome || tag.isSome) tag fuel
      leave number n

/-- A node after its properties; with properties it may be empty. -/
def content (block hanging mayBeBlank : Bool) (tag : Option String) : Nat → Compose Node
  | 0 => refuse
  | fuel + 1 => do
    match ← peek with
    | some (.scalar style text) =>
      skip
      return .scalar (scalarTag tag) style text
    | some .flowSequenceStart =>
      skip
      return .list tag (← flowItems true fuel)
    | some .flowMappingStart =>
      skip
      return .mapping tag (← flowPairs true fuel)
    | some .blockSequenceStart =>
      if block then
        skip
        return .list tag (← blockItems fuel)
      else blankContent mayBeBlank tag
    | some .blockMappingStart =>
      if block then
        skip
        return .mapping tag (← blockPairs fuel)
      else blankContent mayBeBlank tag
    | some .blockEntry =>
      if hanging then return .list tag (← hangingItems fuel) else blankContent mayBeBlank tag
    | _ => blankContent mayBeBlank tag

def blankContent (mayBeBlank : Bool) (tag : Option String) : Compose Node :=
  if mayBeBlank then return .scalar tag .plain "" else refuse

/-- A node, unless one of the tokens `ends` comes next. -/
def nodeUnless (ends : List Token) (block hanging : Bool) : Nat → Compose Node
  | 0 => refuse
  | fuel + 1 => do
    if ← nextIs ends then return .blank else node block hanging fuel

def blockItems : Nat → Compose (List Node)
  | 0 => refuse
  | fuel + 1 => do
    match ← peek with
    | some .blockEntry =>
      skip
      let n ← nodeUnless [.blockEntry, .blockEnd] true false fuel
      return n :: (← blockItems fuel)
    | some .blockEnd =>
      skip
      return []
    | _ => refuse

def hangingItems : Nat → Compose (List Node)
  | 0 => refuse
  | fuel + 1 => do
    match ← peek with
    | some .blockEntry =>
      skip
      let n ← nodeUnless [.blockEntry, .key, .value, .blockEnd] true false fuel
      return n :: (← hangingItems fuel)
    | _ => return []

def blockPairs : Nat → Compose (List (Node × Node))
  | 0 => refuse
  | fuel + 1 => do
    match ← peek with
    | some .key =>
      skip
      let k ← nodeUnless [.key, .value, .blockEnd] true true fuel
      let v ← blockValue fuel
      return (k, v) :: (← blockPairs fuel)
    | some .blockEnd =>
      skip
      return []
    | _ => refuse

def blockValue : Nat → Compose Node
  | 0 => refuse
  | fuel + 1 => do
    match ← peek with
    | some .value =>
      skip
      nodeUnless [.key, .value, .blockEnd] true true fuel
    | _ => return .blank

def flowItems (first : Bool) : Nat → Compose (List Node)
  | 0 => refuse
  | fuel + 1 => do
    if (← peek) == some .flowSequenceEnd then
      skip
      return []
    else
      if !first then expect .flowEntry
      match ← peek with
      | some .flowSequenceEnd =>
        skip
        return []
      | some .key =>
        skip
        let pair ← singlePair fuel
        return .mapping none [pair] :: (← flowItems false fuel)
      | _ =>
        let n ← node false false fuel
        return n :: (← flowItems false fuel)

/-- A pair that stands as an item of a list in brackets. A token in place of its key is lost. -/
def singlePair : Nat → Compose (Node × Node)
  | 0 => refuse
  | fuel + 1 => do
    let k ← if ← nextIs [.value, .flowEntry, .flowSequenceEnd] then
        skip
        pure Node.blank
      else node false false fuel
    let v ← flowValue .flowSequenceEnd fuel
    return (k, v)

def flowValue (closing : Token) : Nat → Compose Node
  | 0 => refuse
  | fuel + 1 => do
    match ← peek with
    | some .value =>
      skip
      nodeUnless [.flowEntry, closing] false false fuel
    | _ => return .blank

def flowPairs (first : Bool) : Nat → Compose (List (Node × Node))
  | 0 => refuse
  | fuel + 1 => do
    if (← peek) == some .flowMappingEnd then
      skip
      return []
    else
      if !first then expect .flowEntry
      match ← peek with
      | some .flowMappingEnd =>
        skip
        return []
      | some .key =>
        skip
        let k ← nodeUnless [.value, .flowEntry, .flowMappingEnd] false false fuel
        let v ← flowValue .flowMappingEnd fuel
        return (k, v) :: (← flowPairs false fuel)
      | _ =>
        let k ← node false false fuel
        return (k, .blank) :: (← flowPairs false fuel)

end

/-! ## Documents -/

/-- Directives. A text has version 1.1 or 1.2, said at most once, and no handle is given twice. -/
def directives : Nat → Bool → List (String × String) → Compose (List (String × String))
  | 0, _, _ => refuse
  | fuel + 1, versioned, handles => do
    match ← peek with
    | some (.version major minor) =>
      if versioned || major != 1 || (minor != 1 && minor != 2) then refuse
      else
        skip
        directives fuel true handles
    | some (.tagHandle handle start) =>
      if (handles.lookup handle).isSome then refuse
      else
        skip
        directives fuel versioned ((handle, start) :: handles)
    | _ => return handles

def skipEnds : Nat → Compose Unit
  | 0 => return ()
  | fuel + 1 => do
    if (← peek) == some .documentEnd then
      skip
      skipEnds fuel

def startsDocument : Token → Bool
  | .version _ _ | .tagHandle _ _ | .documentStart => true
  | _ => false

def endsDocument : Token → Bool
  | .documentEnd => true
  | t => startsDocument t

/-- The node of the first document; no second one may follow. -/
def document (fuel : Nat) : Compose Node := do
  let n ← if (← peek).any startsDocument then do
      let handles ← directives fuel false []
      modify fun s => { s with handles := handles ++ standardHandles }
      expect .documentStart
      match ← peek with
      | none => pure Node.blank
      | some t => if endsDocument t then pure Node.blank else node true false fuel
    else node true false fuel
  skipEnds fuel
  if (← peek).isNone then return n else refuse

end Compose

/-! ## Texts -/

structure Stream where
  /-- `none` if the text holds no document. -/
  root : Option Node
  targets : List (Nat × Node)

namespace Stream

def parse? (text : String) : Option Stream := do
  let tokens ← tokens? text
  if tokens = [] then return ⟨none, []⟩
  else
    let start : Composer := ⟨tokens, [], [], Compose.standardHandles⟩
    let (n, s) ← (Compose.document (4 * tokens.length + 8)).run start
    return ⟨some n, s.targets⟩

/-- A node that is no alias. -/
def resolve (s : Stream) : Node → Option Node
  | .alias k => s.targets.lookup k
  | n => some n

end Stream
end UsageGraph.Yaml
