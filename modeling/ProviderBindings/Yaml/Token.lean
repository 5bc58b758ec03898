/-!
# Tokens of YAML texts

A token is a mark of structure, a property of a node, or a scalar with its text already put together.
The starts and ends of blocks, which a text shows by indentation, are tokens of their own.
-/

namespace ProviderBindings.Yaml

/-- A directive at the start of a document. -/
inductive Directive where
  | version (major : Nat)
  /-- A handle and what it stands for in tags. -/
  | handle (handle lead : String)
  | other
  deriving DecidableEq, Repr

/-- A token. -/
inductive Token where
  | directive (d : Directive)
  | documentStart
  | documentEnd
  | blockSequenceStart
  | blockMappingStart
  | blockEnd
  | flowSequenceStart
  | flowSequenceEnd
  | flowMappingStart
  | flowMappingEnd
  | blockEntry
  | flowEntry
  | key
  | value
  | alias (name : String)
  | anchor (name : String)
  | tag (handle : Option String) (suffix : String)
  | scalar (text : String) (plain : Bool)
  deriving DecidableEq, Repr

end ProviderBindings.Yaml
