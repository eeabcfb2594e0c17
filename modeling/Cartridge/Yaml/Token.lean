import Cartridge.Yaml.Property
import Cartridge.Yaml.Scalar

/-!
# Tokens of YAML

A document as a list of tokens. Indentation becomes tokens too: a map or a list in block form
begins where its first key or dash stands further right than what it is in, and ends where
a line stands further left. That a scalar is a key shows only at the colon after it; the
token that announces the key is then put in front of it.
-/
namespace Cartridge.Yaml

inductive Token where
  | directive (directive : Directive)
  | documentStart
  | documentEnd
  | beginMap
  | beginList
  | endBlock
  | openList
  | closeList
  | openMap
  | closeMap
  | comma
  | item
  | key
  | value
  | anchor (name : String)
  | aliasTo (name : String)
  | tag (handle : String)
  | scalar (text : String) (isPlain : Bool)
  deriving DecidableEq, Repr

/-- A token that becomes a key if a colon follows it on the same line. -/
structure KeyMark where
  /-- How many tokens come before it. -/
  before : Nat
  position : Position
  /-- Whether it has to become one, for it stands where the keys of a block stand. -/
  required : Bool

/-- The longest distance from the start of a key to its colon, in bytes. -/
def maxKeyLength : Nat := 1024

/-- Whether a colon at this position would be too late for the key. -/
def KeyMark.isStale (mark : KeyMark) (p : Position) : Bool :=
  mark.position.line < p.line || mark.position.index + maxKeyLength < p.index

/-- A document that has been read up to some character. -/
structure Scan where
  rest : List Char
  position : Position
  tokens : Array Token
  /-- Columns of the block maps and lists that are open, the innermost first. -/
  indents : List Nat
  /-- For the document and each open bracket, the innermost first, what may become a key. -/
  keys : List (Option KeyMark)
  /-- Whether a key or a dash may stand here. -/
  keyAllowed : Bool

namespace Scan

def ofText (cs : List Char) : Scan := ⟨cs, ⟨0, 0, 0⟩, #[], [], [none], true⟩

def inFlow (s : Scan) : Bool := 1 < s.keys.length

/-- The least column that belongs to the innermost block. -/
def minColumn (s : Scan) : Nat := (s.indents.head?.map (· + 1)).getD 0

def push (s : Scan) (t : Token) : Scan := { s with tokens := s.tokens.push t }

/-- Passes over so many characters. -/
def skip (s : Scan) (count : Nat) : Scan :=
  { s with
    rest := s.rest.drop count
    position := (s.rest.take count).foldl Position.next s.position }

/-- Goes on at `rest`, which is an end of what is left. -/
def skipTo (s : Scan) (rest : List Char) : Scan := s.skip (s.rest.length - rest.length)

def setKey (s : Scan) (mark : Option KeyMark) : Scan := { s with keys := mark :: s.keys.tail }

/-- Gives up what may become a key here, unless it has to. -/
def dropKey (s : Scan) : Option Scan :=
  match s.keys.head? with
  | some (some mark) => if mark.required then none else some (s.setKey none)
  | _ => some s

/-- Gives up the keys whose colon cannot come any more, unless one of them has to be a key. -/
def dropStaleKeys (s : Scan) : Option Scan :=
  let isStale (mark : KeyMark) : Bool := mark.isStale s.position
  if s.keys.any fun key => key.any fun mark => isStale mark && mark.required then none
  else some { s with keys := s.keys.map fun key => key.filter fun mark => !isStale mark }

/-- Remembers that the next token may become a key. -/
def markKey (s : Scan) : Option Scan :=
  if s.keyAllowed then do
    let required := !s.inFlow && s.indents.head? == some s.position.column
    return (← s.dropKey).setKey (some ⟨s.tokens.size, s.position, required⟩)
  else some s

/-- Begins a block in this column, if it stands further right than the one around it. Its token
goes to an index among the tokens. -/
def indentTo (s : Scan) (column index : Nat) (t : Token) : Scan :=
  if !s.inFlow && s.minColumn ≤ column then
    { s with indents := column :: s.indents, tokens := s.tokens.insertIdxIfInBounds index t }
  else s

/-- Ends the blocks that stand further right than this column. -/
def dedentTo (s : Scan) (column : Nat) : Scan :=
  if s.inFlow then s
  else
    let ended := s.indents.takeWhile (column < ·)
    { s with
      indents := s.indents.drop ended.length
      tokens := s.tokens ++ Array.replicate ended.length .endBlock }

/-- Ends all blocks. -/
def dedentAll (s : Scan) : Scan :=
  if s.inFlow then s
  else
    { s with indents := [], tokens := s.tokens ++ Array.replicate s.indents.length .endBlock }

/-- Passes over blanks, comments and line ends to the next token. A tab is a blank only where no
key may stand, and a byte order mark only at the start of a line. -/
def skipSpace (inFlow : Bool) :
    List Char → Position → Bool → Bool → List Char × Position × Bool
  | [], p, keyAllowed, _ => ([], p, keyAllowed)
  | c :: rest, p, keyAllowed, inComment =>
    if isBreak c then skipSpace inFlow rest (p.next c) (keyAllowed || !inFlow) false
    else if inComment || c == ' ' || (c == '\t' && (inFlow || !keyAllowed)) ||
        (c == byteOrderMark && p.column = 0) then
      skipSpace inFlow rest (p.next c) keyAllowed inComment
    else if c == '#' then skipSpace inFlow rest (p.next c) keyAllowed true
    else (c :: rest, p, keyAllowed)

/-- Goes to the next token, and ends the keys and blocks that do not reach it. -/
def toToken (s : Scan) : Option Scan := do
  let (rest, position, keyAllowed) := skipSpace s.inFlow s.rest s.position s.keyAllowed false
  let s ← { s with rest := rest, position := position, keyAllowed := keyAllowed }.dropStaleKeys
  return s.dedentTo position.column

/-- Adds a scalar that has been read. -/
def addScalar (s : Scan) (isPlain : Bool) (scanned : Scanned) : Scan :=
  { s with
    rest := scanned.rest
    position := scanned.position
    tokens := s.tokens.push (.scalar scanned.text isPlain)
    keyAllowed := scanned.broken }

/-- Ends all blocks before something that is no part of a document. -/
def leaveDocument (s : Scan) : Option Scan := do
  return { ← s.dedentAll.dropKey with keyAllowed := false }

/-- A directive, with the end of its line. -/
def directive (s : Scan) : Option Scan := do
  let s ← s.leaveDocument
  let (directive, rest) ← scanDirective (s.rest.drop 1)
  return ((s.push (.directive directive)).skipTo rest).skip 1

/-- A marker at the start of a line begins or ends a document. -/
def documentMark (s : Scan) (t : Token) : Option Scan := do
  return ((← s.leaveDocument).push t).skip 3

def openBracket (s : Scan) (t : Token) : Option Scan := do
  let marked ← s.markKey
  return ({ marked with keys := none :: marked.keys, keyAllowed := true }.push t).skip 1

def closeBracket (s : Scan) (t : Token) : Option Scan := do
  let dropped ← s.dropKey
  let keys := if s.inFlow then dropped.keys.tail else dropped.keys
  return ({ dropped with keys := keys, keyAllowed := false }.push t).skip 1

def comma (s : Scan) : Option Scan := do
  return ({ ← s.dropKey with keyAllowed := true }.push .comma).skip 1

/-- A dash before an item. Between brackets it becomes a token and is refused later. -/
def dash (s : Scan) : Option Scan := do
  if !s.inFlow && !s.keyAllowed then none
  let indented := s.indentTo s.position.column s.tokens.size .beginList
  return ({ ← indented.dropKey with keyAllowed := true }.push .item).skip 1

/-- A question mark before a key. -/
def question (s : Scan) : Option Scan := do
  if !s.inFlow && !s.keyAllowed then none
  let indented := s.indentTo s.position.column s.tokens.size .beginMap
  return ({ ← indented.dropKey with keyAllowed := !s.inFlow }.push .key).skip 1

/-- A colon before a value. What was marked as a key becomes one. -/
def colon (s : Scan) : Option Scan :=
  match s.keys.head? with
  | some (some mark) =>
    let keyed := { s with tokens := s.tokens.insertIdxIfInBounds mark.before .key }
    let indented := keyed.indentTo mark.position.column mark.before .beginMap
    some (({ indented.setKey none with keyAllowed := false }.push .value).skip 1)
  | _ =>
    if !s.inFlow && !s.keyAllowed then none
    else
      let indented := s.indentTo s.position.column s.tokens.size .beginMap
      some (({ indented with keyAllowed := !s.inFlow }.push .value).skip 1)

/-- The name of an anchor or an alias behind its sign. It may be, or begin, a key. -/
def named (s : Scan) (t : String → Token) : Option Scan := do
  let marked ← s.markKey
  let (name, rest) ← scanName (s.rest.drop 1)
  return ({ marked with keyAllowed := false }.push (t name)).skipTo rest

/-- A tag, which may begin a key. -/
def tag (s : Scan) : Option Scan := do
  let marked ← s.markKey
  let (handle, rest) ← scanTag s.inFlow s.rest
  return ({ marked with keyAllowed := false }.push (.tag handle)).skipTo rest

/-- A literal or folded block. -/
def block (s : Scan) (isLiteral : Bool) : Option Scan := do
  let dropped ← s.dropKey
  let (header, body) ← scanBlockHeader (s.rest.drop 1)
  let signs := dropped.skipTo body
  let afterBlanks := signs.skipTo (signs.rest.dropWhile isBlank)
  let atEnd :=
    if afterBlanks.rest.head? == some '#' then
      afterBlanks.skipTo (afterBlanks.rest.dropWhile (!isBreak ·))
    else afterBlanks
  let start : BlockText := ⟨isLiteral, header.chomp, [], none, [], false⟩
  let base := s.minColumn
  let indent := header.indent.map fun n => if s.indents.isEmpty then n else base - 1 + n
  let scanned ←
    match atEnd.rest with
    | [] => some ⟨start.finish, [], atEnd.position, true⟩
    | c :: rest =>
      if isBreak c then scanBlock (max base 1) rest (atEnd.position.next c) indent 0 false start
      else none
  return atEnd.addScalar false { scanned with broken := true }

def plain (s : Scan) : Option Scan := do
  let marked ← s.markKey
  let scanned ← scanPlain s.inFlow s.minColumn s.rest s.position [] Gap.none
  return marked.addScalar true scanned

def quoted (s : Scan) (isDouble : Bool) : Option Scan := do
  let marked ← s.markKey
  let start := s.skip 1
  let scanned ← scanQuoted isDouble start.rest start.position [] Gap.none .nothing
  return marked.addScalar false scanned

/-- The signs that begin no plain scalar. -/
def isIndicator (c : Char) : Bool := ",[]\x7b\x7d#&*!|>'\x22%@\x60".toList.contains c

/-- Reads the token that begins here. -/
def next (s : Scan) : Option Scan :=
  match s.rest with
  | [] => some s
  | c :: after =>
    let atMargin := s.position.column == 0
    if atMargin && c == '%' then s.directive
    else if atMargin && isDocumentMark s.rest then
      s.documentMark (if c == '-' then .documentStart else .documentEnd)
    else
      match c with
      | '[' => s.openBracket .openList
      | '\x7b' => s.openBracket .openMap
      | ']' => s.closeBracket .closeList
      | '\x7d' => s.closeBracket .closeMap
      | ',' => s.comma
      | '*' => s.named .aliasTo
      | '&' => s.named .anchor
      | '!' => s.tag
      | '\x27' => s.quoted false
      | '\x22' => s.quoted true
      | _ =>
        if c == '-' && endsWord after then s.dash
        else if c == '?' && (s.inFlow || endsWord after) then s.question
        else if c == ':' && (s.inFlow || endsWord after) then s.colon
        else if c == '|' && !s.inFlow then s.block true
        else if c == '>' && !s.inFlow then s.block false
        else if isIndicator c || c == '\t' then none
        else s.plain

/-- Reads tokens to the end of the text, as many as the count allows. -/
def tokensUpTo : Nat → Scan → Option (Array Token)
  | 0, _ => none
  | count + 1, s => do
    let s ← s.toToken
    if s.rest.isEmpty then return (← s.leaveDocument).tokens
    else tokensUpTo count (← s.next)

end Scan

/-- The tokens of a text, if its characters may stand in a document and form tokens. -/
def tokens? (text : String) : Option (List Token) :=
  let cs := text.toList
  if cs.all isAllowed then
    (Scan.tokensUpTo (cs.length + 1) (Scan.ofText (unifyBreaks cs))).map Array.toList
  else none

end Cartridge.Yaml
