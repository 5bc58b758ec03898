import ProviderBindings.Yaml.Graph

/-!
# Documents as values

`Data.ofYaml` is the value that a YAML text denotes. Mappings named under a merge key are merged in first.
Then every scalar is checked from the root outwards, level by level, so that of several faults the one
nearest to the root comes up. The value is unfolded to three levels only: nothing deeper is ever looked
at, and a node that contains itself has no end.
-/

namespace ProviderBindings.Yaml

/-- The state of checking a graph. -/
structure Checker where
  /-- The nodes, with mappings merged in as far as that has been done. -/
  nodes : Array Node
  /-- The values of the scalars that have been looked at; collections have a null here. -/
  values : Array (Option Data)
  /-- The collections whose members have yet to be looked at, in order. -/
  queue : List Nat := []

/-- A step of checking a graph. -/
abbrev Check := StateT Checker (Except Fault)

namespace Check

/-- The node of a number. -/
def nodeAt (number : Nat) : Check Node := do
  pure ((← get).nodes[number]?.getD ⟨.null, .scalar ""⟩)

/-- Change the node of a number. -/
def change (number : Nat) (f : Node → Node) : Check Unit :=
  modify fun c => { c with nodes := c.nodes.modify number f }

/-- The pairs of a mapping, if the node is one. -/
def pairsAt (number : Nat) : Check (Option (List (Nat × Nat))) := do
  match (← nodeAt number).content with
  | .mapping pairs => pure (some pairs)
  | _ => pure none

/-- Replace the pairs of a mapping. -/
def setPairs (number : Nat) (pairs : List (Nat × Nat)) : Check Unit :=
  change number fun n => { n with content := .mapping pairs }

/-- Put the pairs of merged mappings in front of a mapping's own, from the given place on. A merge key
names a mapping, or a sequence of mappings of which the first counts most. -/
def merge : Nat → Nat → Nat → List (Nat × Nat) → Check Unit
  | 0, _, _, _ => throw .malformed
  | fuel + 1, number, place, merged => do
    let pairs := (← pairsAt number).getD []
    match pairs[place]? with
    | none => if merged.isEmpty then pure () else setPairs number (merged ++ pairs)
    | some (key, value) =>
      match (← nodeAt key).tag with
      | .merge =>
        setPairs number (pairs.eraseIdx place)
        match (← nodeAt value).content with
        | .mapping _ =>
          merge fuel value 0 []
          merge fuel number place (merged ++ (← pairsAt value).getD [])
        | .sequence items =>
          let parts ← items.mapM fun item => do
            match (← nodeAt item).content with
            | .mapping _ =>
              merge fuel item 0 []
              pure ((← pairsAt item).getD [])
            | _ => throw .malformed
          merge fuel number place (merged ++ parts.reverse.flatten)
        | .scalar _ => throw .malformed
      | .value =>
        change key fun n => { n with tag := .str }
        merge fuel number (place + 1) merged
      | _ => merge fuel number (place + 1) merged

/-- The text of a scalar. A mapping stands for the text under its default key. -/
def scalarText : Nat → Nat → Check String
  | 0, _ => throw (.scalar .endless)
  | fuel + 1, number => do
    match (← nodeAt number).content with
    | .scalar text => pure text
    | .sequence _ => throw .malformed
    | .mapping pairs =>
      let keyTags ← pairs.mapM fun (key, value) => do pure ((← nodeAt key).tag, value)
      match keyTags.lookup .value with
      | some value => scalarText fuel value
      | none => throw .malformed

/-- Note the value of a node. -/
def setValue (number : Nat) (value : Data) : Check Unit :=
  modify fun c => { c with values := c.values.setIfInBounds number (some value) }

/-- The value of a scalar. -/
def scalarValue (number : Nat) : Check Data := do
  let n ← nodeAt number
  let text ← scalarText ((← get).nodes.size + 1) number
  match n.tag, n.content with
  | .timestamp, .mapping _ => throw (.scalar .timestampMapping)
  | _, _ => (n.tag.scalarValue text : Except Fault Data)

/-- Look at a node: work out a scalar, and put a collection into the queue. What a scalar stands for is
settled the first time it is looked at. -/
def visit (number : Nat) : Check Unit := do
  match (← get).values[number]? with
  | some (some _) => pure ()
  | _ =>
    if (← nodeAt number).tag.isHashable then setValue number (← scalarValue number)
    else
      setValue number .null
      modify fun c => { c with queue := c.queue ++ [number] }

/-- Look at the members of a mapping, whose keys must not be collections. -/
def visitMapping (number : Nat) : Check Unit := do
  let c ← get
  let width := c.nodes.toList.foldl (fun total n =>
    match n.content with
    | .mapping pairs => total + pairs.length
    | _ => total) 0
  match ← pairsAt number with
  | none => throw .malformed
  | some _ =>
    merge ((width + 2) * (width + 2)) number 0 []
    for (key, value) in (← pairsAt number).getD [] do
      visit key
      if !(← nodeAt key).tag.isHashable then throw .malformed
      visit value

/-- Look at the members of a sequence. -/
def visitSequence (number : Nat) : Check Unit := do
  match (← nodeAt number).content with
  | .sequence items => items.forM visit
  | _ => throw .malformed

/-- Look at the members of a sequence of mappings of one pair each. -/
def visitPairs (number : Nat) : Check Unit := do
  match (← nodeAt number).content with
  | .sequence items =>
    for item in items do
      match ← pairsAt item with
      | some [(key, value)] =>
        visit key
        visit value
      | _ => throw .malformed
  | _ => throw .malformed

/-- Look at the members of the collections in the queue, and of those found on the way. -/
def visitQueue : Nat → Check Unit
  | 0 => pure ()
  | fuel + 1 => do
    match (← get).queue with
    | [] => pure ()
    | number :: rest =>
      modify fun c => { c with queue := rest }
      match (← nodeAt number).tag with
      | .seq => visitSequence number
      | .orderedMap => visitPairs number
      | .pairs => visitPairs number
      | _ => visitMapping number
      visitQueue fuel

end Check

/-- A graph whose scalars have values. -/
structure CheckedGraph where
  nodes : Array Node
  values : Array (Option Data)
  root : Nat

/-- The graph with mappings merged in and scalars worked out, if all of it is sound. -/
def Graph.check (g : Graph) : Except Fault CheckedGraph := do
  let work : Check Unit := do
    Check.visit g.root
    Check.visitQueue (g.nodes.size + 1)
  let ((), c) ← StateT.run work { nodes := g.nodes, values := Array.replicate g.nodes.size none }
  pure { nodes := c.nodes, values := c.values, root := g.root }

namespace CheckedGraph

variable (g : CheckedGraph)

/-- The value that was worked out for a scalar. -/
def scalar (number : Nat) : Data :=
  (g.values[number]?.join).getD .null

/-- The first of each group of equal nodes. -/
def distinct (numbers : List Nat) : List Nat :=
  numbers.foldl (fun kept number =>
    if kept.any fun k => k == number || (g.scalar k).sameScalar (g.scalar number) then kept
    else kept ++ [number]) []

/-- The value of a node, down to the given number of levels. Keys that are no texts are left out of
mappings. -/
def value : Nat → Nat → Data
  | depth, number =>
    match g.nodes[number]? with
    | none => .null
    | some n =>
      if n.tag.isHashable then g.scalar number
      else
        match depth with
        | 0 => .list []
        | depth + 1 =>
          match n.content with
          | .scalar _ => .list []
          | .sequence items => .list (items.map (value depth))
          | .mapping pairs =>
            if n.tag = .set then .set ((g.distinct (pairs.map (·.1))).map g.scalar)
            else .dict (pairs.filterMap fun (key, member) =>
              match g.scalar key with
              | .str name => some (name, value depth member)
              | _ => none)

end CheckedGraph

end ProviderBindings.Yaml

namespace ProviderBindings

/-- How many levels of a document are looked at. -/
def yamlDepth : Nat := 3

/-- The value that a YAML text denotes; an empty text denotes null. -/
def Data.ofYaml (s : String) : Except Yaml.Fault Data := do
  match ← Yaml.Graph.ofText? s with
  | none => pure .null
  | some g =>
    let g ← g.check
    pure (g.value yamlDepth g.root)

end ProviderBindings
