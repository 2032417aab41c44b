import EditorLint.Yaml.Lexer

/-!
YAML documents as trees. `Document.read` reads a text that holds at most one document, with all
tags resolved and every alias checked to name an anchor before it.
-/

namespace EditorLint.Yaml

/-- A node of a document. An anchor marks a node with a number, and an alias repeats the last
node of the document that is marked with its number. -/
inductive Node where
  | scalar (text : String) (style : Style) (tag : Option String)
  | sequence (items : List Node)
  | mapping (entries : List (Node × Node))
  | anchored (number : Nat) (node : Node)
  | repeated (number : Nat)
  deriving Inhabited

namespace Node

def empty : Node := scalar "" .plain none

mutual

/-- The marked nodes of a tree in the order in which they start. -/
def marked : Node → List (Nat × Node)
  | anchored number node => (number, node) :: node.marked
  | sequence items => markedItems items
  | mapping entries => markedEntries entries
  | scalar .. | repeated _ => []

def markedItems : List Node → List (Nat × Node)
  | [] => []
  | item :: rest => item.marked ++ markedItems rest

def markedEntries : List (Node × Node) → List (Nat × Node)
  | [] => []
  | (key, value) :: rest => key.marked ++ value.marked ++ markedEntries rest

end

end Node

/-! ## Reading nodes from tokens -/

/-- What the tokens read so far have left: the tokens to come, the prefixes of the tag handles,
and the number of each anchor name. -/
structure Parser where
  tokens : List Token
  handles : List (String × String) := []
  anchors : List (String × Nat) := []

abbrev Parse := StateT Parser Option

namespace Parse

def peek : Parse (Option Token) := return (← get).tokens.head?

def skip : Parse Unit := modify fun parser => { parser with tokens := parser.tokens.drop 1 }

def fail {α : Type} : Parse α := fun _ => none

def sees (tokens : List Token) : Parse Bool := return (← peek).any (· ∈ tokens)

def accept (token : Token) : Parse Bool := do
  if ← sees [token] then
    skip
    return true
  else return false

def expect (token : Token) : Parse Unit := do
  unless ← accept token do fail

/-- Gives a name the next number, the count of names in use so far. A name that is in use already
names the new node from here on. -/
def mark (name : String) : Parse Nat := do
  let parser ← get
  let number := parser.anchors.length
  set { parser with anchors := (name, number) :: parser.anchors.filter (·.1 ≠ name) }
  return number

def markOf (name : String) : Parse Nat := do
  match (← get).anchors.lookup name with
  | some number => return number
  | none => fail

/-- A tag with its handle replaced; a tag without a handle stands for itself. -/
def resolveTag (handle suffix : String) : Parse String := do
  if handle.isEmpty then return suffix
  match (← get).handles.lookup handle with
  | some replacement => return replacement ++ suffix
  | none => fail

/-- The anchor in front, if there is one, by its number. -/
def readAnchor : Parse (Option Nat) := do
  match ← peek with
  | some (.anchor name) =>
    skip
    return some (← mark name)
  | _ => return none

def readTag : Parse (Option String) := do
  match ← peek with
  | some (.tag handle suffix) =>
    skip
    return some (← resolveTag handle suffix)
  | _ => return none

/-- The anchor and the tag of a node, in either order. -/
def readProperties : Parse (Option Nat × Option String) := do
  let anchor ← readAnchor
  let tag ← readTag
  if anchor.isNone && tag.isSome then return (← readAnchor, tag)
  else return (anchor, tag)

mutual

/-- A node. Block collections may only start where `block` says so, and a sequence without
indentation of its own where `indentless` does. -/
def readNode (block indentless : Bool) : Nat → Parse Node
  | 0 => fail
  | fuel + 1 => do
    if let some (.aliasOf name) ← peek then
      skip
      return .repeated (← markOf name)
    let (anchor, tag) ← readProperties
    let node ← readContent block indentless fuel anchor.isSome tag
    match anchor with
    | some number => return .anchored number node
    | none => return node

/-- A node behind its anchor and tag; with one of them it may be empty. -/
def readContent (block indentless : Bool) : Nat → Bool → Option String → Parse Node
  | 0, _, _ => fail
  | fuel + 1, named, tag => do
    match ← peek with
    | some (.scalar text style) =>
      skip
      return .scalar text style (if tag == some "!" then none else tag)
    | some .flowSequenceStart =>
      skip
      return .sequence (← readFlowItems fuel true)
    | some .flowMappingStart =>
      skip
      return .mapping (← readFlowEntries fuel true)
    | next =>
      if indentless && next == some .blockEntry then
        return .sequence (← readIndentlessItems fuel)
      else if block && next == some .blockSequenceStart then
        skip
        return .sequence (← readBlockItems fuel)
      else if block && next == some .blockMappingStart then
        skip
        return .mapping (← readBlockEntries fuel)
      else if named || tag.isSome then return .scalar "" .plain tag
      else fail

/-- A node, unless one of the given tokens is next; then it is empty. -/
def readNodeUnless (ends : List Token) (block indentless : Bool) : Nat → Parse Node
  | 0 => fail
  | fuel + 1 => do
    if ← sees ends then return .empty
    else readNode block indentless fuel

def readBlockItems : Nat → Parse (List Node)
  | 0 => fail
  | fuel + 1 => do
    if ← accept .blockEnd then return []
    expect .blockEntry
    let item ← readNodeUnless [.blockEntry, .blockEnd] true false fuel
    return item :: (← readBlockItems fuel)

/-- The items of a sequence that stands at the column of the mapping around it. -/
def readIndentlessItems : Nat → Parse (List Node)
  | 0 => fail
  | fuel + 1 => do
    if ← accept .blockEntry then
      let item ← readNodeUnless [.blockEntry, .key, .value, .blockEnd] true false fuel
      return item :: (← readIndentlessItems fuel)
    else return []

def readBlockEntries : Nat → Parse (List (Node × Node))
  | 0 => fail
  | fuel + 1 => do
    if ← accept .blockEnd then return []
    expect .key
    let key ← readNodeUnless [.key, .value, .blockEnd] true true fuel
    let value ←
      if ← accept .value then readNodeUnless [.key, .value, .blockEnd] true true fuel
      else pure .empty
    return (key, value) :: (← readBlockEntries fuel)

/-- The items of a sequence in brackets up to its end; all but the first follow a comma. A key
makes a mapping with one entry; when nothing but its sign is there, the next token is lost. -/
def readFlowItems : Nat → Bool → Parse (List Node)
  | 0, _ => fail
  | fuel + 1, first => do
    if ← accept .flowSequenceEnd then return []
    unless first do expect .flowEntry
    if ← accept .flowSequenceEnd then return []
    let item ←
      if ← accept .key then do
        let entry ← readFlowPair fuel
        pure (.mapping [entry])
      else readNode false false fuel
    return item :: (← readFlowItems fuel false)

/-- A mapping with one entry inside of brackets, behind its key sign. -/
def readFlowPair : Nat → Parse (Node × Node)
  | 0 => fail
  | fuel + 1 => do
    let key ←
      if ← sees [.value, .flowEntry, .flowSequenceEnd] then do
        skip
        pure .empty
      else readNode false false fuel
    let value ←
      if ← accept .value then
        readNodeUnless [.flowEntry, .flowSequenceEnd] false false fuel
      else pure .empty
    return (key, value)

/-- The entries of a mapping in braces up to its end; all but the first follow a comma. An entry
without a key sign has no value. -/
def readFlowEntries : Nat → Bool → Parse (List (Node × Node))
  | 0, _ => fail
  | fuel + 1, first => do
    if ← accept .flowMappingEnd then return []
    unless first do expect .flowEntry
    if ← accept .flowMappingEnd then return []
    let entry ←
      if ← accept .key then do
        let key ← readNodeUnless [.value, .flowEntry, .flowMappingEnd] false false fuel
        let value ←
          if ← accept .value then
            readNodeUnless [.flowEntry, .flowMappingEnd] false false fuel
          else pure .empty
        pure (key, value)
      else do
        let key ← readNode false false fuel
        pure (key, .empty)
    return entry :: (← readFlowEntries fuel false)

end

/-! ## Documents -/

/-- The directives before a document: one version at most, and no tag handle twice. -/
def readDirectives : Nat → Bool → Parse Unit
  | 0, _ => fail
  | fuel + 1, versioned => do
    match ← peek with
    | some (.version major minor) =>
      if versioned || major ≠ 1 || !(minor == 1 || minor == 2) then fail
      skip
      readDirectives fuel true
    | some (.tagAlias handle replacement) =>
      let parser ← get
      if (parser.handles.lookup handle).isSome then fail
      set { parser with handles := parser.handles ++ [(handle, replacement)] }
      skip
      readDirectives fuel versioned
    | _ => return

/-- The handles that every document has, unless it sets them itself. -/
def standardHandles : List (String × String) := [("!", "!"), ("!!", "tag:yaml.org,2002:")]

/-- The root of the only document; none when there is no document at all. Only a marker ends the
directives. -/
def readDocument (fuel : Nat) : Parse (Option Node) := do
  if (← peek).isNone then return none
  let directed := (← peek).any fun token => token matches .version .. | .tagAlias ..
  readDirectives fuel false
  modify fun parser => { parser with handles := parser.handles ++ standardHandles }
  let started ← accept .documentStart
  if directed && !started then fail
  if started && ((← peek).isNone || (← sees [.documentEnd])) then return some .empty
  else return some (← readNode true false fuel)

end Parse

/-- The root of the only document of a text. The answer is none when the text is not well formed
and holds nothing when it has no document. -/
def Document.read (text : String) : Option (Option Node) := do
  let tokens ← tokens? text
  let (root, parser) ← (Parse.readDocument (4 * tokens.length + 8)).run { tokens }
  guard (parser.tokens.all (· == .documentEnd))
  return root

end EditorLint.Yaml
