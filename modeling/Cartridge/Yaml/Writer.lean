import Cartridge.Text.Hex
import Cartridge.Yaml.Character
import Cartridge.Yaml.Node

/-!
# Writing YAML

Maps are indented by two columns, lists stand below their key at its own indent, and no line is
folded. A text is written plain where it reads back as that text and no reader takes
it for a null, a truth value or a number; else in single quotes, or as a literal block if it
has line feeds, or in double quotes if it has characters that need an escape. A line of the
document ends with a line feed, unless a line of a text ends there with a separator of its own.
-/
namespace Cartridge.Yaml

/-- Words that some reader takes for a null, a truth value or a number, in lower case. -/
def reservedWords : List String :=
  ["~", "null", "nil", "nan", "true", "false", "y", "yes", "n", "no", "on", "off"]

/-- Whether a reader may take a plain text for something else: a reserved word, or
anything that begins like a number. -/
def isAmbiguous (s : String) : Bool :=
  match s.toList with
  | [] => true
  | c :: _ => c.isDigit || c == '-' || c == '.' || c == '+' || reservedWords.contains s.toLower

/-- Whether a text cannot begin a plain scalar. -/
def opensOther : List Char → Bool
  | [] => false
  | c :: rest =>
    "#,[]\x7b\x7d&*!|>'\x22%@\x60".toList.contains c || ("?:-".toList.contains c && endsWord rest)

/-- Whether a plain scalar would end early: at a colon with a blank after it, or at a comment.
The first argument tells whether a blank stands before the text. -/
def breaksOff : Bool → List Char → Bool
  | _, [] => false
  | afterBlank, c :: rest =>
    (c == ':' && endsWord rest) || (c == '#' && afterBlank) ||
      breaksOff (isBlank c || isBreak c) rest

/-- Whether a blank stands at the end or before a line end. -/
def hasLooseBlank : List Char → Bool
  | [] => false
  | c :: rest => (c == ' ' && (rest.isEmpty || rest.head?.any isBreak)) || hasLooseBlank rest

/-- Whether a blank stands next to a line end. -/
def hasBlankAtBreak : List Char → Bool
  | c :: d :: rest =>
    (c == ' ' && isBreak d) || (isBreak c && d == ' ') || hasBlankAtBreak (d :: rest)
  | _ => false

inductive Style where
  | plain
  | single
  | double
  | literal
  deriving DecidableEq, Repr

/-- The style in which a text is written. -/
def style (s : String) : Style :=
  let cs := s.toList
  let special := cs.any (!isPrintable ·)
  if cs.contains '\n' then if special || hasLooseBlank cs then .double else .literal
  else if special || hasBlankAtBreak cs then .double
  else if cs.any isBreak then .single
  else if isAmbiguous s then .single
  else if cs.head? == some ' ' || cs.getLast? == some ' ' then .single
  else if opensOther cs || breaksOff false (cs.drop 1) then .single
  else .plain

/-- A character in double quotes. All characters that are not printable have at most four
digits. -/
def escape (c : Char) : List Char :=
  match c with
  | '\x00' => ['\\', '0']
  | '\x07' => ['\\', 'a']
  | '\x08' => ['\\', 'b']
  | '\t' => ['\\', 't']
  | '\n' => ['\\', 'n']
  | '\x0b' => ['\\', 'v']
  | '\x0c' => ['\\', 'f']
  | '\r' => ['\\', 'r']
  | '\x1b' => ['\\', 'e']
  | '\x22' => ['\\', '\x22']
  | '\\' => ['\\', '\\']
  | '\u0085' => ['\\', 'N']
  | '\u2028' => ['\\', 'L']
  | '\u2029' => ['\\', 'P']
  | _ =>
    if isPrintable c then [c]
    else
      let digits (width : Nat) := (Hex.digits width c.toNat).map Char.toUpper
      if c.toNat ≤ 0xff then '\\' :: 'x' :: digits 2 else '\\' :: 'u' :: digits 4

/-- A character in single quotes. -/
def doubled (c : Char) : List Char := if c == '\x27' then [c, c] else [c]

/-- What stands after the bar of a literal block: the indent, if the text does not show it, and
what becomes of the line ends at its end. -/
def literalHints (cs : List Char) : List Char :=
  let indent := if cs.head?.any fun c => c == ' ' || isBreak c then ['2'] else []
  let ends := cs.reverse.takeWhile isBreak
  let tail :=
    if ends.isEmpty then ['-'] else if ends.length = 1 && 1 < cs.length then [] else ['+']
  indent ++ tail

/-- A line of a document, with the character that ends it. -/
structure Line where
  text : List Char
  ending : Char
  deriving DecidableEq, Repr

namespace Line

/-- A line that ends with a line feed. -/
def ofText (text : List Char) : Line := ⟨text, '\n'⟩

def toChars (line : Line) : List Char := line.text ++ [line.ending]

/-- A line with something in front of it. -/
def after (front : String) (line : Line) : Line := { line with text := front.toList ++ line.text }

/-- A line two columns deeper; an empty line stays empty. -/
def deeper (line : Line) : Line := if line.text.isEmpty then line else line.after "  "

end Line

/-- The lines of a text. What follows its last line end is a line of its own. -/
def linesOf : List Char → List Line
  | [] => []
  | c :: rest =>
    if isBreak c then ⟨[], c⟩ :: linesOf rest
    else
      match linesOf rest with
      | [] => [.ofText [c]]
      | line :: lines => { line with text := c :: line.text } :: lines

/-- All lines but the first two columns deeper. -/
def hanging : List Line → List Line
  | [] => []
  | first :: rest => first :: rest.map Line.deeper

/-- Something in front of the first line. -/
def headed (front : String) : List Line → List Line
  | [] => [.ofText front.toList]
  | first :: rest => first.after front :: rest

/-- The lines of a text that stands as a value. -/
def textLines (s : String) : List Line :=
  let cs := s.toList
  match style s with
  | .plain => [.ofText cs]
  | .single => hanging (linesOf ('\x27' :: cs.flatMap doubled ++ ['\x27']))
  | .double => [.ofText ('\x22' :: cs.flatMap escape ++ ['\x22'])]
  | .literal => hanging (.ofText ('|' :: literalHints cs) :: linesOf cs)

def emptyList : Line := .ofText ['[', ']']

def emptyMap : Line := .ofText ['\x7b', '\x7d']

mutual

/-- The lines of a node that stands at the left margin. -/
def nodeLines : Tree → List Line
  | .plain text => [.ofText text.toList]
  | .quoted text => textLines text
  | .list items => if items.isEmpty then [emptyList] else itemLines items
  | .map fields => if fields.isEmpty then [emptyMap] else fieldLines fields

/-- The lines of a list. Those of a text are indented already. -/
def itemLines : List Tree → List Line
  | [] => []
  | .plain text :: rest => headed "- " [.ofText text.toList] ++ itemLines rest
  | .quoted text :: rest => headed "- " (textLines text) ++ itemLines rest
  | item :: rest => headed "- " (hanging (nodeLines item)) ++ itemLines rest

def fieldLines : List (Tree × Tree) → List Line
  | [] => []
  | (key, value) :: rest => valueLines (key.text?.getD "") value ++ fieldLines rest

/-- The lines of a key with its value. -/
def valueLines (key : String) : Tree → List Line
  | .plain text => headed (key ++ ": ") [.ofText text.toList]
  | .quoted text => headed (key ++ ": ") (textLines text)
  | .list items =>
    if items.isEmpty then headed (key ++ ": ") [emptyList]
    else .ofText (key ++ ":").toList :: itemLines items
  | .map fields =>
    if fields.isEmpty then headed (key ++ ": ") [emptyMap]
    else .ofText (key ++ ":").toList :: (fieldLines fields).map Line.deeper

end

/-- A document as text. -/
def write (tree : Tree) : String := String.ofList ((nodeLines tree).flatMap Line.toChars)

end Cartridge.Yaml
