/-!
# Paths

A path is kept as it was written, for it is shown that way; what it leads to is
decided by its components. Repeated slashes separate like one, and a leading slash makes a path
absolute.
-/
namespace Cartridge

structure Path where
  text : String
  deriving DecidableEq, Repr, Inhabited

namespace Path

/-- The names between the slashes. -/
def names (p : Path) : List String :=
  ((p.text.toList.splitOn '/').filter (!·.isEmpty)).map String.ofList

def isAbsolute (p : Path) : Bool := p.text.toList.head? == some '/'

/-- Whether the path says by a last slash that it leads to a directory. -/
def endsInSlash (p : Path) : Bool := p.text.toList.getLast? == some '/'

/-- The path with more characters at its end, which belong to its last name. -/
def withSuffix (p : Path) (suffix : String) : Path := ⟨p.text ++ suffix⟩

/-- A path relative to another: an absolute one stands for itself, and the slash between
the two is written unless it is there already or nothing stands before it. -/
def join (base : Path) (name : String) : Path :=
  if isAbsolute ⟨name⟩ then ⟨name⟩
  else if base.text.isEmpty || base.endsInSlash then ⟨base.text ++ name⟩
  else ⟨base.text ++ "/" ++ name⟩

/-- The names without those that stand for the directory they are in; at the start of a
relative path such a name counts. -/
def components (p : Path) : List String :=
  match p.names with
  | [] => []
  | first :: rest =>
    (if first = "." && p.isAbsolute then [] else [first]) ++ rest.filter (· != ".")

/-- The last component, if it is the name of an entry. -/
def fileName? (p : Path) : Option String :=
  match p.components.getLast? with
  | some name => if name = "." || name = ".." then none else some name
  | none => none

/-- What follows the last dot of the last component. A dot at its start begins no extension. -/
def extension? (p : Path) : Option String := do
  let reversed := (← p.fileName?).toList.reverse
  let tail := reversed.takeWhile (· != '.')
  let stem := (reversed.drop tail.length).drop 1
  if stem.isEmpty then none else some (String.ofList tail.reverse)

/-- The path without its last component, if it has one. -/
def parent? (p : Path) : Option Path :=
  match p.components with
  | [] => none
  | first :: rest =>
    let kept := (first :: rest).dropLast
    some ⟨(if p.isAbsolute then "/" else "") ++ String.intercalate "/" kept⟩

end Path

end Cartridge
