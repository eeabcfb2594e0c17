import Cartridge.Yaml.Character

/-!
# Reading scalars

Each kind of scalar is read character by character. The line ends inside a plain or quoted
scalar are folded: one alone becomes a space, of several the first is dropped. A literal block
keeps its line ends, and its indent is that of its first line.
-/
namespace Cartridge.Yaml

/-- Where in the document a character stands. Columns count characters, and the index counts
the bytes before the character. -/
structure Position where
  line : Nat
  column : Nat
  index : Nat
  deriving DecidableEq, Repr

/-- The position after a character. -/
def Position.next (p : Position) (c : Char) : Position :=
  let index := p.index + c.utf8Size
  if isBreak c then ⟨p.line + 1, 0, index⟩ else ⟨p.line, p.column + 1, index⟩

/-- A scalar that was read, and what comes after it. -/
structure Scanned where
  text : String
  rest : List Char
  position : Position
  /-- Whether a line ended between the scalar and the rest. -/
  broken : Bool

/-- Whether a marker of the start or the end of a document stands here. -/
def isDocumentMark (cs : List Char) : Bool :=
  match cs with
  | '-' :: '-' :: '-' :: rest => endsWord rest
  | '.' :: '.' :: '.' :: rest => endsWord rest
  | _ => false

/-- Blanks and line ends between two words of a scalar, last ones first. Blanks count only
until a line ends. -/
structure Gap where
  blanks : List Char
  broken : Bool
  first : Option Char
  more : List Char

namespace Gap

def none : Gap := ⟨[], false, .none, []⟩

/-- The gap after a line end that was escaped. -/
def escaped : Gap := ⟨[], true, .none, []⟩

def isNone (g : Gap) : Bool := g.blanks.isEmpty && !g.broken

def add (g : Gap) (c : Char) : Gap :=
  if isBreak c then
    if g.broken then { g with more := c :: g.more } else ⟨[], true, some c, []⟩
  else if g.broken then g
  else { g with blanks := c :: g.blanks }

/-- What the gap becomes in the text, last characters first. -/
def folded (g : Gap) : List Char :=
  if g.broken then
    match g.first with
    | some '\n' => if g.more.isEmpty then [' '] else g.more
    | some c => g.more ++ [c]
    | .none => g.more
  else g.blanks

end Gap

/-- The characters that end a plain scalar between brackets. -/
def isFlowMark (c : Char) : Bool := ",[]\x7b\x7d".toList.contains c

/-- Reads a plain scalar. Outside of brackets it goes on only in lines that reach `indent`. -/
def scanPlain (inFlow : Bool) (indent : Nat) :
    List Char → Position → List Char → Gap → Option Scanned
  | [], p, text, gap => some ⟨String.ofList text.reverse, [], p, gap.broken⟩
  | c :: rest, p, text, gap =>
    let ended : Scanned := ⟨String.ofList text.reverse, c :: rest, p, gap.broken⟩
    if isBlank c || isBreak c then
      if gap.broken && p.column < indent && c == '\t' then none
      else scanPlain inFlow indent rest (p.next c) text (gap.add c)
    else if !gap.isNone && (c == '#' || (!inFlow && p.column < indent) ||
        (p.column == 0 && isDocumentMark (c :: rest))) then some ended
    else if c == ':' && endsWord rest then some ended
    else if inFlow && c == ':' && rest.head?.any (fun d => isFlowMark d || d == '?') then none
    else if inFlow && isFlowMark c then some ended
    else scanPlain inFlow indent rest (p.next c) (c :: (gap.folded ++ text)) Gap.none

/-- How far an escape in double quotes, or a quote in single quotes, has been read. -/
inductive Pending where
  | nothing
  | backslash
  | quote
  /-- So many hexadecimal digits are still to come after those of `value`. -/
  | digits (left value : Nat)

/-- The characters that a backslash and one letter stand for. -/
def simpleEscapes : List (Char × Char) :=
  [('0', '\x00'), ('a', '\x07'), ('b', '\x08'), ('t', '\t'), ('\t', '\t'), ('n', '\n'),
    ('v', '\x0b'), ('f', '\x0c'), ('r', '\r'), ('e', '\x1b'), (' ', ' '), ('\x22', '\x22'),
    ('/', '/'), ('\\', '\\'), ('N', '\u0085'), ('_', '\u00a0'), ('L', '\u2028'), ('P', '\u2029')]

/-- The number of digits after an escape that names a character by its number. -/
def escapeWidths : List (Char × Nat) := [('x', 2), ('u', 4), ('U', 8)]

/-- The character of a number, unless no character has it. -/
def char? (n : Nat) : Option Char := if n.isValidChar then some (Char.ofNat n) else none

/-- Reads a quoted scalar from behind its first quote on. -/
def scanQuoted (isDouble : Bool) :
    List Char → Position → List Char → Gap → Pending → Option Scanned
  | [], p, text, _, .quote => some ⟨String.ofList text.reverse, [], p, false⟩
  | [], _, _, _, _ => none
  | c :: rest, p, text, gap, .quote =>
    if c == '\x27' then scanQuoted isDouble rest (p.next c) (c :: text) gap .nothing
    else some ⟨String.ofList text.reverse, c :: rest, p, false⟩
  | c :: rest, p, text, _, .backslash =>
    if isBreak c then scanQuoted isDouble rest (p.next c) text .escaped .nothing
    else
      match simpleEscapes.lookup c with
      | some d => scanQuoted isDouble rest (p.next c) (d :: text) .none .nothing
      | none =>
        match escapeWidths.lookup c with
        | some width => scanQuoted isDouble rest (p.next c) text .none (.digits width 0)
        | none => none
  | c :: rest, p, text, gap, .digits left value =>
    match hexDigit? c with
    | none => none
    | some digit =>
      let value := 16 * value + digit
      if 1 < left then scanQuoted isDouble rest (p.next c) text gap (.digits (left - 1) value)
      else
        match char? value with
        | some d => scanQuoted isDouble rest (p.next c) (d :: text) gap .nothing
        | none => none
  | c :: rest, p, text, gap, .nothing =>
    if isBlank c || isBreak c then scanQuoted isDouble rest (p.next c) text (gap.add c) .nothing
    else if p.column == 0 && isDocumentMark (c :: rest) then none
    else
      let joined := gap.folded ++ text
      if !isDouble && c == '\x27' then scanQuoted isDouble rest (p.next c) joined .none .quote
      else if isDouble && c == '\x22' then
        some ⟨String.ofList joined.reverse, rest, p.next c, false⟩
      else if isDouble && c == '\\' then
        scanQuoted isDouble rest (p.next c) joined .none .backslash
      else scanQuoted isDouble rest (p.next c) (c :: joined) .none .nothing

/-- What becomes of the line ends at the end of a block. -/
inductive Chomp where
  | strip
  | clip
  | keep
  deriving DecidableEq

/-- The signs after the bar of a block: how it ends, and its indent if that is given. -/
structure BlockHeader where
  chomp : Chomp
  indent : Option Nat

def chompOf? (c : Char) : Option Chomp :=
  if c == '+' then some .keep else if c == '-' then some .strip else none

/-- Reads the signs after the bar; their order is free, and an indent of zero is refused. -/
def scanBlockHeader (cs : List Char) : Option (BlockHeader × List Char) :=
  let digit? (c : Char) : Option Nat := if c.isDigit then hexDigit? c else none
  match cs with
  | [] => some (⟨.clip, none⟩, [])
  | c :: rest =>
    match chompOf? c, digit? c with
    | some chomp, _ =>
      match rest.head?.bind digit? with
      | some 0 => none
      | some n => some (⟨chomp, some n⟩, rest.drop 1)
      | none => some (⟨chomp, none⟩, rest)
    | none, some 0 => none
    | none, some n =>
      match rest.head?.bind chompOf? with
      | some chomp => some (⟨chomp, some n⟩, rest.drop 1)
      | none => some (⟨.clip, some n⟩, rest)
    | none, none => some (⟨.clip, none⟩, c :: rest)

/-- A block that is being read: its text and the line ends after it, last ones first. -/
structure BlockText where
  isLiteral : Bool
  chomp : Chomp
  text : List Char
  ending : Option Char
  blankLines : List Char
  /-- Whether the last line began with a blank; such lines are not folded. -/
  afterBlank : Bool

namespace BlockText

/-- Begins a line whose first character is `c`. -/
def beginLine (b : BlockText) (c : Char) : BlockText :=
  let folds := !b.isLiteral && b.ending == some '\n' && !b.afterBlank && !isBlank c
  let joint :=
    if folds then if b.blankLines.isEmpty then [' '] else b.blankLines
    else b.blankLines ++ b.ending.toList
  { b with
    text := c :: (joint ++ b.text)
    ending := none
    blankLines := []
    afterBlank := isBlank c }

def finish (b : BlockText) : String :=
  let ending := if b.chomp = .strip then [] else b.ending.toList
  let blankLines := if b.chomp = .keep then b.blankLines else []
  String.ofList (blankLines ++ ending ++ b.text).reverse

end BlockText

/-- Reads the lines of a block. `indent` is none until the first line has shown it, `least` is the
least that it may be, and `deepest` the greatest column of a blank line so far; `inLine` tells
whether the indent of the current line has been passed. -/
def scanBlock (least : Nat) :
    List Char → Position → Option Nat → Nat → Bool → BlockText → Option Scanned
  | [], p, _, _, _, b => some ⟨b.finish, [], p, true⟩
  | c :: rest, p, indent, deepest, true, b =>
    if isBreak c then
      scanBlock least rest (p.next c) indent deepest false { b with ending := some c }
    else scanBlock least rest (p.next c) indent deepest true { b with text := c :: b.text }
  | c :: rest, p, indent, deepest, false, b =>
    let inMargin := indent.all (p.column < ·)
    if inMargin && c == ' ' then
      scanBlock least rest (p.next c) indent (max deepest (p.column + 1)) false b
    else if inMargin && c == '\t' then none
    else if isBreak c then
      scanBlock least rest (p.next c) indent deepest false
        { b with blankLines := c :: b.blankLines }
    else
      let settled := indent.getD (max (max deepest p.column) least)
      if p.column = settled then
        scanBlock least rest (p.next c) (some settled) deepest true (b.beginLine c)
      else some ⟨b.finish, c :: rest, p, true⟩

end Cartridge.Yaml
