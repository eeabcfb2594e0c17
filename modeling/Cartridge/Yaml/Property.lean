import Cartridge.Yaml.Character

/-!
# Anchors, tags and directives

What may be written in front of a node or of a document. An anchor names a node, and an
alias stands for the node of that name. A tag is checked and then passed over: a text is the same
with it and without it. A directive states a version or declares the handle of tags.
-/
namespace Cartridge.Yaml

inductive Directive where
  | version (major minor : Nat)
  | handle (name : String)
  deriving DecidableEq, Repr

/-- The characters other than blanks and line ends that may follow the name of an anchor. -/
def nameEnds : List Char := "?:,]\x7d%@\x60".toList

/-- The name of an anchor or alias, and what follows it. -/
def scanName (cs : List Char) : Option (String × List Char) :=
  let name := cs.takeWhile isNameChar
  let rest := cs.drop name.length
  if !name.isEmpty && (endsWord rest || rest.head?.any nameEnds.contains) then
    some (String.ofList name, rest)
  else none

/-- Whether a character may stand in a tag. Between angle brackets there are some more. -/
def isTagChar (isVerbatim : Bool) (c : Char) : Bool :=
  isNameChar c || ";/?:@&=+$.!~*'()".toList.contains c || (isVerbatim && ",[]".toList.contains c)

/-- How many bytes of a character follow its first. -/
def followers? (byte : Nat) : Option Nat :=
  if byte < 0x80 then some 0
  else if byte / 0x20 = 6 then some 1
  else if byte / 0x10 = 14 then some 2
  else if byte / 8 = 30 then some 3
  else none

/-- Passes over the characters of a tag. A percent sign stands before the two digits of a byte, and
`left` bytes of a character are still to come. -/
def skipTag (isVerbatim : Bool) : (left : Nat) → List Char → Option (List Char)
  | left, '%' :: a :: b :: rest => do
    let byte := 16 * (← hexDigit? a) + (← hexDigit? b)
    if left = 0 then skipTag isVerbatim (← followers? byte) rest
    else if byte / 0x40 = 2 then skipTag isVerbatim (left - 1) rest
    else none
  | left, c :: rest =>
    if left ≠ 0 || c == '%' then none
    else if isTagChar isVerbatim c then skipTag isVerbatim 0 rest
    else some (c :: rest)
  | left, [] => if left = 0 then some [] else none

/-- The same for a tag that has to have a character. -/
def skipSomeTag (isVerbatim : Bool) (cs : List Char) : Option (List Char) := do
  let rest ← skipTag isVerbatim 0 cs
  if rest.length = cs.length then none else some rest

/-- The handle at the start of a tag: one exclamation mark, and if a name and a second one come
after it, these too. Without the second mark the name is not part of the handle. -/
def scanHandle (cs : List Char) : Option (String × List Char) :=
  match cs with
  | '!' :: rest =>
    let name := rest.takeWhile isNameChar
    match rest.drop name.length with
    | '!' :: after => some (String.ofList ('!' :: name ++ ['!']), after)
    | _ => some ("!", rest)
  | _ => none

/-- The handle of a tag, and what follows the tag. A tag between angle brackets has none. -/
def scanTag (inFlow : Bool) (cs : List Char) : Option (String × List Char) := do
  let (handle, rest) ←
    match cs with
    | '!' :: '<' :: body =>
      match ← skipSomeTag true body with
      | '>' :: rest => some ("", rest)
      | _ => none
    | _ =>
      let (handle, body) ← scanHandle cs
      let rest ← if handle = "!" then skipTag false 0 body else skipSomeTag false body
      some (handle, rest)
  if endsWord rest || (inFlow && rest.head? == some ',') then some (handle, rest) else none

/-- The longest number of a version, in digits. -/
def maxVersionDigits : Nat := 9

def scanVersionNumber (cs : List Char) : Option (Nat × List Char) :=
  let digits := cs.takeWhile Char.isDigit
  if digits.isEmpty || maxVersionDigits < digits.length then none
  else some (digits.foldl (fun n c => 10 * n + (c.toNat - '0'.toNat)) 0, cs.drop digits.length)

def scanVersion (cs : List Char) : Option (Directive × List Char) := do
  let (major, rest) ← scanVersionNumber cs
  match rest with
  | '.' :: rest =>
    let (minor, rest) ← scanVersionNumber rest
    some (.version major minor, rest)
  | _ => none

/-- The handle that a directive declares and the text that it stands for. -/
def scanDeclaration (cs : List Char) : Option (Directive × List Char) := do
  let (handle, rest) ← scanHandle cs
  if !rest.head?.any isBlank then none
  let rest ← skipSomeTag true (rest.dropWhile isBlank)
  if endsWord rest then some (.handle handle, rest) else none

/-- A directive from behind the percent sign on, and what follows in its line. -/
def scanDirective (cs : List Char) : Option (Directive × List Char) := do
  let name := cs.takeWhile isNameChar
  let rest := cs.drop name.length
  if !endsWord rest then none
  let body := rest.dropWhile isBlank
  let (directive, rest) ←
    if name = "YAML".toList then scanVersion body
    else if name = "TAG".toList then scanDeclaration body
    else none
  let rest := rest.dropWhile isBlank
  let rest := if rest.head? == some '#' then rest.dropWhile (!isBreak ·) else rest
  if rest.isEmpty || rest.head?.any isBreak then some (directive, rest) else none

/-- The handles that are always declared. -/
def standardHandles : List String := ["", "!", "!!"]

/-- The handles that hold after some directives. There may be one version, 1.1 or 1.2, and each
handle may be declared once. -/
def handlesOf? (directives : List Directive) : Option (List String) :=
  let versions := directives.filterMap fun
    | .version major minor => some (major, minor)
    | .handle _ => none
  let declared := directives.filterMap fun
    | .version .. => none
    | .handle name => some name
  if versions.length ≤ 1 && versions.all (fun v => v.1 = 1 && (v.2 = 1 || v.2 = 2)) &&
      declared.eraseDups.length = declared.length then
    some (standardHandles ++ declared)
  else none

end Cartridge.Yaml
