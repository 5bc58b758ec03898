import ProviderBindings.Yaml.Layout
import ProviderBindings.Yaml.Scalar

/-!
# Node graphs

A YAML document is a graph of nodes: scalars, sequences of nodes, and mappings from nodes to nodes. An
alias leads back to the node its anchor names, so nodes are numbered and refer to each other by number;
a node may even contain itself. `Graph.ofText?` reads the one document of a text.
-/

namespace ProviderBindings.Yaml

/-- What a node holds. -/
inductive NodeContent where
  | scalar (text : String)
  | sequence (items : List Nat)
  | mapping (pairs : List (Nat × Nat))
  deriving DecidableEq, Repr

/-- A node of a document. -/
structure Node where
  tag : Tag
  content : NodeContent
  deriving DecidableEq, Repr

/-- The nodes of a document, and the one that stands for it. -/
structure Graph where
  nodes : Array Node
  root : Nat
  deriving Repr

/-- The state of building a graph from tokens. -/
structure Builder where
  /-- The tokens to come. -/
  tokens : List Token
  /-- The fault that stands where the tokens end, if there is one. -/
  fault : Option Fault
  /-- The nodes so far. -/
  nodes : Array Node := #[]
  /-- The anchors so far, with the nodes they name. -/
  anchors : List (String × Nat) := []
  /-- What tag handles stand for. -/
  handles : List (String × String) := []

/-- A step of building a graph. -/
abbrev Build := StateT Builder (Except Fault)

namespace Build

/-- The text breaks the rules of YAML. -/
def malformed : Build α :=
  throw .malformed

/-- The next token. Where a fault stands in its place, that is the outcome. -/
def peek : Build (Option Token) := do
  let b ← get
  match b.tokens, b.fault with
  | [], some fault => throw fault
  | tokens, _ => pure tokens.head?

/-- Take a token off. -/
def drop : Build Unit :=
  modify fun b => { b with tokens := b.tokens.tail }

/-- Take a given token off if it is next, and say whether it was. -/
def accept (t : Token) : Build Bool := do
  if (← peek) == some t then
    drop
    pure true
  else pure false

/-- Whether the next token is one of the given. -/
def sees (ts : List Token) : Build Bool := do
  match ← peek with
  | none => pure false
  | some t => pure (ts.contains t)

/-- Take a given token off, which has to be next. -/
def expect (t : Token) : Build Unit := do
  if !(← accept t) then malformed

/-- Add a node. -/
def addNode (n : Node) : Build Nat := do
  let number := (← get).nodes.size
  modify fun b => { b with nodes := b.nodes.push n }
  pure number

/-- Put the items or pairs of a collection in place, once they are all there. -/
def fill (number : Nat) (content : NodeContent) : Build Unit :=
  modify fun b => { b with nodes := b.nodes.modify number fun n => { n with content } }

/-- A scalar that is left out. -/
def emptyNode : Build Nat :=
  addNode ⟨.ofPlain "", .scalar ""⟩

/-- The properties of a node: an anchor and a tag in either order. -/
structure Properties where
  anchor : Option String := none
  tag : Option (Option String × String) := none

/-- Take the properties of a node off. -/
def properties : Build Properties := do
  match ← peek with
  | some (.anchor name) =>
    drop
    match ← peek with
    | some (.tag handle suffix) => drop; pure ⟨name, some (handle, suffix)⟩
    | _ => pure ⟨name, none⟩
  | some (.tag handle suffix) =>
    drop
    match ← peek with
    | some (.anchor name) => drop; pure ⟨name, some (handle, suffix)⟩
    | _ => pure ⟨none, some (handle, suffix)⟩
  | _ => pure {}

/-- The full name of a tag, with what its handle stands for in front. -/
def tagName (tag : Option String × String) : Build String := do
  match tag.1 with
  | none => pure tag.2
  | some handle =>
    match (← get).handles.lookup handle with
    | some lead => pure (lead ++ tag.2)
    | none => malformed

/-- The tag of a collection: its own, or the usual one. -/
def collectionTag (name : Option String) (usual : Tag) : Tag :=
  match name with
  | none => usual
  | some name => if name == "!" then usual else .ofName name

/-- The tag of a scalar: its own, or the one its text tells. An exclamation mark makes a quoted text
count as plain. -/
def scalarTag (name : Option String) (text : String) (plain : Bool) : Tag :=
  match name with
  | none => if plain then .ofPlain text else .str
  | some name => if name == "!" then .ofPlain text else .ofName name

/-- Add a node under an anchor, which must be new. -/
def addNamed (anchor : Option String) (n : Node) : Build Nat := do
  match anchor with
  | none => addNode n
  | some name =>
    if ((← get).anchors.lookup name).isSome then malformed
    else
      let number ← addNode n
      modify fun b => { b with anchors := (name, number) :: b.anchors }
      pure number

/-- The places that a node stands in. -/
inductive Position where
  /-- Inside brackets. -/
  | flow
  /-- Outside brackets, but not in a mapping. -/
  | block
  /-- In a block mapping, where the dashes of a sequence need no deeper indentation. -/
  | entry
  deriving DecidableEq, Repr

mutual

/-- A node at a position. -/
def node : Nat → Position → Build Nat
  | 0, _ => malformed
  | fuel + 1, position => do
    match ← peek with
    | some (.alias name) =>
      drop
      match (← get).anchors.lookup name with
      | some number => pure number
      | none => malformed
    | _ =>
      let own ← properties
      let name ← own.tag.mapM tagName
      match ← peek with
      | some (.scalar text plain) =>
        drop
        addNamed own.anchor ⟨scalarTag name text plain, .scalar text⟩
      | some .flowSequenceStart =>
        drop
        let number ← addNamed own.anchor ⟨collectionTag name .seq, .sequence []⟩
        let items ← flowItems fuel true
        fill number (.sequence items)
        pure number
      | some .flowMappingStart =>
        drop
        let number ← addNamed own.anchor ⟨collectionTag name .map, .mapping []⟩
        let pairs ← flowPairs fuel true
        fill number (.mapping pairs)
        pure number
      | next =>
        if next == some .blockEntry && position = .entry then
          let number ← addNamed own.anchor ⟨collectionTag name .seq, .sequence []⟩
          let items ← blockItems fuel [.key, .value]
          fill number (.sequence items)
          pure number
        else if next == some .blockSequenceStart && position != .flow then
          drop
          let number ← addNamed own.anchor ⟨collectionTag name .seq, .sequence []⟩
          let items ← blockItems fuel []
          expect .blockEnd
          fill number (.sequence items)
          pure number
        else if next == some .blockMappingStart && position != .flow then
          drop
          let number ← addNamed own.anchor ⟨collectionTag name .map, .mapping []⟩
          let pairs ← blockPairs fuel
          expect .blockEnd
          fill number (.mapping pairs)
          pure number
        else if own.anchor.isSome || name.isSome then
          addNamed own.anchor ⟨scalarTag name "" true, .scalar ""⟩
        else malformed

/-- A node, unless one of the given tokens comes next, before which it is left out. -/
def nodeUnless (fuel : Nat) (position : Position) (ends : List Token) : Build Nat :=
  match fuel with
  | 0 => malformed
  | fuel + 1 => do
    if ← sees ends then emptyNode else node fuel position

/-- The items of a block sequence, each after a dash. Before which tokens an item is left out depends
on whether the sequence has an indentation of its own. -/
def blockItems (fuel : Nat) (ends : List Token) : Build (List Nat) :=
  match fuel with
  | 0 => malformed
  | fuel + 1 => do
    if ← accept .blockEntry then
      let item ← nodeUnless fuel .block (.blockEntry :: .blockEnd :: ends)
      let items ← blockItems fuel ends
      pure (item :: items)
    else pure []

/-- The pairs of a block mapping. A key or a value may be left out. -/
def blockPairs (fuel : Nat) : Build (List (Nat × Nat)) :=
  match fuel with
  | 0 => malformed
  | fuel + 1 => do
    if ← accept .key then
      let key ← nodeUnless fuel .entry [.key, .value, .blockEnd]
      let value ← blockValue fuel
      let pairs ← blockPairs fuel
      pure ((key, value) :: pairs)
    else pure []

/-- The value after a key of a block mapping. -/
def blockValue (fuel : Nat) : Build Nat :=
  match fuel with
  | 0 => malformed
  | fuel + 1 => do
    if ← accept .value then nodeUnless fuel .entry [.key, .value, .blockEnd]
    else emptyNode

/-- The items of a sequence in brackets up to the closing one. A key mark makes an item a mapping of
one pair. -/
def flowItems (fuel : Nat) (first : Bool) : Build (List Nat) :=
  match fuel with
  | 0 => malformed
  | fuel + 1 => do
    if ← accept .flowSequenceEnd then pure []
    else
      if !first then expect .flowEntry
      if ← accept .key then
        let number ← addNode ⟨.map, .mapping []⟩
        let key ← nodeUnless fuel .flow [.value, .flowEntry, .flowSequenceEnd]
        let value ← flowValue fuel .flowSequenceEnd
        fill number (.mapping [(key, value)])
        let items ← flowItems fuel false
        pure (number :: items)
      else if ← accept .flowSequenceEnd then pure []
      else
        let item ← node fuel .flow
        let items ← flowItems fuel false
        pure (item :: items)

/-- The value after a key inside brackets. -/
def flowValue (fuel : Nat) (closing : Token) : Build Nat :=
  match fuel with
  | 0 => malformed
  | fuel + 1 => do
    if ← accept .value then nodeUnless fuel .flow [.flowEntry, closing]
    else emptyNode

/-- The pairs of a mapping in brackets up to the closing one. -/
def flowPairs (fuel : Nat) (first : Bool) : Build (List (Nat × Nat)) :=
  match fuel with
  | 0 => malformed
  | fuel + 1 => do
    if ← accept .flowMappingEnd then pure []
    else
      if !first then expect .flowEntry
      if ← accept .key then
        let key ← nodeUnless fuel .flow [.value, .flowEntry, .flowMappingEnd]
        let value ← flowValue fuel .flowMappingEnd
        let pairs ← flowPairs fuel false
        pure ((key, value) :: pairs)
      else if ← accept .flowMappingEnd then pure []
      else
        let key ← node fuel .flow
        let value ← emptyNode
        let pairs ← flowPairs fuel false
        pure ((key, value) :: pairs)

end

/-- What the handles of tags stand for unless directives say otherwise. -/
def usualHandles : List (String × String) :=
  [("!", "!"), ("!!", Tag.standardLead)]

/-- The directives before a document: at most one version, which must be 1, and handles, each once. -/
def directives : Nat → Bool → List (String × String) → Build (List (String × String))
  | 0, _, _ => malformed
  | fuel + 1, versioned, handles => do
    match ← peek with
    | some (.directive d) =>
      drop
      match d with
      | .version major =>
        if versioned || major != 1 then malformed else directives fuel true handles
      | .handle handle lead =>
        if (handles.lookup handle).isSome then malformed
        else directives fuel versioned ((handle, lead) :: handles)
      | .other => directives fuel versioned handles
    | _ => pure (handles ++ usualHandles)

/-- Whether a document is over, or has not begun, before a token. -/
def endsDocument : Option Token → Bool
  | none => true
  | some (.directive _) => true
  | some .documentStart => true
  | some .documentEnd => true
  | _ => false

/-- The one document of a text, if there is any: with its start marked, or without. Another one after it is
a fault, which shows once the directives before that have been read. -/
def document (fuel : Nat) : Build (Option Nat) := do
  match ← peek with
  | none => pure none
  | some t =>
    let marked := match t with
      | .directive _ => true
      | .documentStart => true
      | _ => false
    let root ←
      if marked then
        let handles ← directives fuel false []
        modify fun b => { b with handles }
        expect .documentStart
        if endsDocument (← peek) then emptyNode else node fuel .block
      else
        modify fun b => { b with handles := usualHandles }
        node fuel .block
    modify fun b => { b with tokens := b.tokens.dropWhile (· == .documentEnd) }
    match ← peek with
    | none => pure (some root)
    | some _ =>
      let _ ← directives fuel false []
      malformed

end Build

/-- The document that a text holds, if it holds any. -/
def Graph.ofText? (s : String) : Except Fault (Option Graph) := do
  let scan := Scan.ofText s
  let (root, b) ← (Build.document (4 * scan.tokens.length + 8)).run
    { tokens := scan.tokens, fault := scan.fault }
  pure (root.map fun root => ⟨b.nodes, root⟩)

end ProviderBindings.Yaml
