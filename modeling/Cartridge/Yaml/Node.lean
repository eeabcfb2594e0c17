/-!
# YAML documents

The tree of a document. A scalar written without quotes is kept apart from all other text,
for only an unquoted one can stand for something else than itself. An alias stands for a node
that has its place elsewhere, and `ref` is the type of what tells which node that is.
-/
namespace Cartridge.Yaml

inductive Node (ref : Type) where
  | plain (text : String)
  | quoted (text : String)
  | list (items : List (Node ref))
  | map (fields : List (Node ref × Node ref))
  | aliasTo (target : ref)
  deriving Inhabited

/-- A tree without aliases, such as is written. -/
abbrev Tree := Node Empty

namespace Node

variable {ref : Type}

def number (n : Nat) : Node ref := .plain (toString n)

def bool (b : Bool) : Node ref := .plain (if b then "true" else "false")

def null : Node ref := .plain "null"

/-- The node that stands where nothing is written. -/
def missing : Node ref := .plain ""

/-- A map whose keys are written without quotes. -/
def record (fields : List (String × Node ref)) : Node ref :=
  .map (fields.map fun (key, value) => (.plain key, value))

/-- The text of a scalar. -/
def text? : Node ref → Option String
  | .plain text | .quoted text => some text
  | .list _ | .map _ | .aliasTo _ => none

end Node

/-- A document that was read. An alias refers to a node by a number. -/
structure Document where
  root : Node Nat
  /-- The nodes that aliases may refer to. None of them is an alias. -/
  anchored : List (Nat × Node Nat)

/-- What stands in a place of the document: the node there, or the one its alias refers to. -/
def Document.content? (d : Document) : Node Nat → Option (Node Nat)
  | .aliasTo target => d.anchored.lookup target
  | node => some node

/-- The text of a scalar in a place of the document. -/
def Document.text? (d : Document) (node : Node Nat) : Option String :=
  (d.content? node).bind Node.text?

end Cartridge.Yaml
