import Cartridge.Yaml.Node
import Cartridge.Yaml.Token

/-!
# Reading YAML

A document from its tokens. A missing key, value or item is the empty plain scalar. A text
holds at most one document. An alias is kept as such, for it may stand inside the node that it
refers to.
-/
namespace Cartridge.Yaml

/-- What is left of a document that is being read, and what came before it. -/
structure Reading where
  tokens : List Token
  /-- The handles that tags may have. -/
  handles : List String
  /-- The names of the anchors so far, each once, and the numbers that aliases of them refer to. -/
  numbers : List (String × Nat)
  /-- The numbers and nodes of the anchors so far, in the order of the text. The node is the
  missing one until it has been read. -/
  anchors : Array (Nat × Node Nat)

namespace Reading

/-- Gives the next anchor a number: how many names there are before it. A name that comes
back does not count again, so the next new name gets the number of this one. -/
def addAnchor (r : Reading) (name : String) : Reading :=
  let number := r.numbers.length
  { r with
    numbers := (name, number) :: r.numbers.filter (·.1 != name)
    anchors := r.anchors.push (number, .missing) }

/-- Gives the anchor of this index its node. -/
def settle (r : Reading) (index : Nat) (node : Node Nat) : Reading :=
  { r with anchors := r.anchors.modify index fun (number, _) => (number, node) }

/-- The nodes of the anchors under their numbers. The last anchor of a number counts. -/
def anchored (r : Reading) : List (Nat × Node Nat) := r.anchors.toList.reverse

end Reading

/-- A reader of a part of a document. -/
abbrev Parse := StateT Reading Option

namespace Parse

/-- The next token, which is not passed over. -/
def peek : Parse (Option Token) := return (← get).tokens.head?

/-- Passes over the next token. -/
def advance : Parse Unit := modify fun r => { r with tokens := r.tokens.drop 1 }

/-- Whether the next token is one of these. -/
def comes (expected : List Token) : Parse Bool := return (← peek).any expected.contains

/-- Passes over the next token, which has to be this one. -/
def demand (t : Token) : Parse Unit := do
  if ← comes [t] then advance else failure

/-- Passes over the next token if it is this one, and tells whether it is. -/
def accept (t : Token) : Parse Bool := do
  if ← comes [t] then advance; return true
  else return false

/-- A node that is missing where one of some tokens comes next. -/
def missingBefore (ends : List Token) (node : Parse (Node Nat)) : Parse (Node Nat) := do
  if ← comes ends then return .missing else node

/-- The alias that comes next. -/
def nextAlias? : Parse (Option (Node Nat)) := do
  match ← peek with
  | some (.aliasTo name) =>
    advance
    match (← get).numbers.lookup name with
    | some number => return some (.aliasTo number)
    | none => failure
  | _ => return none

/-- The anchor that comes next, by its index among the anchors. -/
def nextAnchor? : Parse (Option Nat) := do
  match ← peek with
  | some (.anchor name) =>
    advance
    modify (·.addAnchor name)
    return some ((← get).anchors.size - 1)
  | _ => return none

/-- Whether a tag comes next. It has to have a handle that is declared. -/
def nextTag : Parse Bool := do
  match ← peek with
  | some (.tag handle) =>
    advance
    if (← get).handles.contains handle then return true else failure
  | _ => return false

/-- The anchor before a node, and whether a node has an anchor or a tag. They may stand in any
order. -/
def properties : Parse (Option Nat × Bool) := do
  let tagBefore ← nextTag
  let anchor ← nextAnchor?
  let tagBehind ← if tagBefore then pure false else nextTag
  return (anchor, anchor.isSome || tagBefore || tagBehind)

/-- The tokens before which a key or its value is missing in block form. -/
def fieldEnds : List Token := [.key, .value, .endBlock]

/-- The tokens before which an item is missing in block form. Where the dashes stand below a key,
it is so before the next key too. -/
def itemEnds (belowKey : Bool) : List Token :=
  if belowKey then .item :: fieldEnds else [.item, .endBlock]

mutual

/-- A node. In block form it may be an indented block, and as the key or value of a field also a
list whose dashes stand below the field. -/
def node : Nat → (inBlock belowKey : Bool) → Parse (Node Nat)
  | 0, _, _ => failure
  | fuel + 1, inBlock, belowKey => do
    match ← nextAlias? with
    | some node => return node
    | none =>
      let (anchor, isMarked) ← properties
      let node ← content fuel inBlock belowKey isMarked
      modify fun r => (anchor.map (r.settle · node)).getD r
      return node

/-- What comes after the anchor and tag of a node. With one of these it may be missing. -/
def content : Nat → (inBlock belowKey isMarked : Bool) → Parse (Node Nat)
  | 0, _, _, _ => failure
  | fuel + 1, inBlock, belowKey, isMarked => do
    match ← peek, inBlock, belowKey with
    | some (.scalar text isPlain), _, _ =>
      advance
      return if isPlain then .plain text else .quoted text
    | some .openList, _, _ =>
      advance
      return .list (← flowItems fuel true)
    | some .openMap, _, _ =>
      advance
      return .map (← flowFields fuel true)
    | some .beginList, true, _ =>
      advance
      let items ← items fuel false
      demand .endBlock
      return .list items
    | some .beginMap, true, _ =>
      advance
      let fields ← fields fuel
      demand .endBlock
      return .map fields
    | some .item, _, true => return .list (← items fuel true)
    | _, _, _ => if isMarked then return .missing else failure

/-- The items of a list in block form. -/
def items : Nat → (belowKey : Bool) → Parse (List (Node Nat))
  | 0, _ => failure
  | fuel + 1, belowKey => do
    if ← accept .item then
      let item ← missingBefore (itemEnds belowKey) (node fuel true false)
      return item :: (← items fuel belowKey)
    else return []

/-- The fields of a map in block form. -/
def fields : Nat → Parse (List (Node Nat × Node Nat))
  | 0 => failure
  | fuel + 1 => do
    if ← accept .key then
      let key ← missingBefore fieldEnds (node fuel true true)
      let value ←
        if ← accept .value then missingBefore fieldEnds (node fuel true true) else pure .missing
      return (key, value) :: (← fields fuel)
    else return []

/-- The items up to a closing bracket; a comma has to stand before each but the first. A field
among the items is a map of its own. Where the key of such a field is missing, the token after
its question mark is passed over. -/
def flowItems : Nat → (isFirst : Bool) → Parse (List (Node Nat))
  | 0, _ => failure
  | fuel + 1, isFirst => do
    if ← accept .closeList then return []
    if !isFirst then demand .comma
    if ← accept .closeList then return []
    if ← accept .key then
      let key ←
        if ← comes [.value, .comma, .closeList] then advance; pure .missing
        else node fuel false false
      let value ←
        if ← accept .value then missingBefore [.comma, .closeList] (node fuel false false)
        else pure .missing
      return .map [(key, value)] :: (← flowItems fuel false)
    else
      let item ← node fuel false false
      return item :: (← flowItems fuel false)

/-- The fields up to a closing brace; a comma has to stand before each but the first. -/
def flowFields : Nat → (isFirst : Bool) → Parse (List (Node Nat × Node Nat))
  | 0, _ => failure
  | fuel + 1, isFirst => do
    if ← accept .closeMap then return []
    if !isFirst then demand .comma
    if ← accept .closeMap then return []
    if ← accept .key then
      let key ← missingBefore [.value, .comma, .closeMap] (node fuel false false)
      let value ←
        if ← accept .value then missingBefore [.comma, .closeMap] (node fuel false false)
        else pure .missing
      return (key, value) :: (← flowFields fuel false)
    else
      let key ← node fuel false false
      return (key, .missing) :: (← flowFields fuel false)

end

/-- The node of a document. No more than three calls follow each other before a token is passed
over, which bounds how deep they go. -/
def root : Parse (Node Nat) := do node (3 * (← get).tokens.length + 3) true false

end Parse

/-- The directives at the start of some tokens, and the tokens after them. -/
def splitDirectives : List Token → List Directive × List Token
  | .directive directive :: rest =>
    let (directives, rest) := splitDirectives rest
    (directive :: directives, rest)
  | tokens => ([], tokens)

/-- Whether no content comes before the end of the document. -/
def endsDocument : List Token → Bool
  | [] => true
  | .directive _ :: _ | .documentStart :: _ | .documentEnd :: _ => true
  | _ :: _ => false

/-- The one document that some tokens form. Behind directives it has to begin with a marker, and
only behind a marker may its content be missing. -/
def documentOf? (tokens : List Token) : Option Document := do
  if tokens.isEmpty then return ⟨.missing, []⟩
  let (directives, body) := splitDirectives tokens
  let handles ← handlesOf? directives
  let content ←
    match body with
    | .documentStart :: content => some content
    | content => if directives.isEmpty then some content else none
  let start : Reading := ⟨content, handles, [], #[]⟩
  let (root, read) ←
    if content.length < tokens.length && endsDocument content then some (.missing, start)
    else Parse.root.run start
  if read.tokens.all (· == .documentEnd) then return ⟨root, read.anchored⟩ else none

/-- The document that a text holds. A text that holds none has the missing node. -/
def read? (text : String) : Option Document := (tokens? text).bind documentOf?

end Cartridge.Yaml
