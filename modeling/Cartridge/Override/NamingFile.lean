import Cartridge.Override.Naming
import Cartridge.Storage.FileSystem
import Cartridge.Yaml.Reader
import Cartridge.Yaml.Writer

/-!
# Naming conventions in YAML

The conventions are a map of three texts and a list. What a file leaves out keeps its standard
value, and keys that mean nothing here are passed over; a key that means something may
stand there once only.
-/
namespace Cartridge

/-- Why no conventions could be read. -/
inductive NamingError where
  | storage (fault : StorageFault)
  | malformed
  deriving DecidableEq, Repr

namespace Naming

open Yaml (Document Node Tree)

/-- The value of a key in a list of fields. `none` inside stands for a key that is not there;
there is no answer if the key is there twice. -/
def field? (name : String) (fields : List (String × Node Nat)) : Option (Option (Node Nat)) :=
  match fields.filter (·.1 == name) with
  | [] => some none
  | [(_, value)] => some (some value)
  | _ => none

/-- The fields of a map, if every key is a scalar. A missing node counts as an empty map. -/
def fieldsOf? (d : Document) (node : Node Nat) : Option (List (String × Node Nat)) :=
  match d.content? node with
  | some (.map fields) => fields.mapM fun (key, value) => return (← d.text? key, value)
  | some (.plain "") => some []
  | _ => none

/-- A text that may be left out. -/
def textOr? (d : Document) (standard : String) (value : Option (Node Nat)) : Option String :=
  match value with
  | none => some standard
  | some node => d.text? node

def sectionFileOf? (d : Document) (node : Node Nat) : Option SectionFile := do
  let fields ← fieldsOf? d node
  let name ← d.text? (← (← field? "section" fields))
  let fileName ← d.text? (← (← field? "file_name" fields))
  return ⟨name, fileName⟩

def entriesOf? (d : Document) (node : Node Nat) : Option (List SectionFile) :=
  match d.content? node with
  | some (.list items) => items.mapM (sectionFileOf? d)
  | some (.plain "") => some []
  | _ => none

def ofDocument? (d : Document) : Option Naming := do
  let fields ← fieldsOf? d d.root
  return {
    directorySuffix := ← textOr? d standard.directorySuffix (← field? "exefs_dir_suffix" fields)
    imageSuffix := ← textOr? d standard.imageSuffix (← field? "exefs_suffix" fields)
    romfsSuffix := ← textOr? d standard.romfsSuffix (← field? "romfs_suffix" fields)
    files := ←
      match ← field? "sections" fields with
      | none => some standard.files
      | some value => entriesOf? d value }

/-- The conventions that a text states. -/
def ofText (text : String) : Except NamingError Naming :=
  match (Yaml.read? text).bind ofDocument? with
  | some naming => .ok naming
  | none => .error .malformed

/-- The text of a byte string that is UTF-8. -/
def decodeUtf8? (bytes : Bytes) : Option String := String.fromUTF8? ⟨bytes⟩

/-- The conventions that a file states. -/
def ofFile (fs : FileSystem) (path : Path) : Except NamingError Naming := do
  let handle ← (fs.openHandle path).mapError .storage
  let bytes ← (fs.readAll handle).mapError .storage
  match decodeUtf8? bytes with
  | some text => ofText text
  | none => .error (.storage .invalidText)

def toTree (n : Naming) : Tree :=
  .record
    [("exefs_dir_suffix", .quoted n.directorySuffix),
     ("exefs_suffix", .quoted n.imageSuffix),
     ("romfs_suffix", .quoted n.romfsSuffix),
     ("sections", .list (n.files.map fun entry =>
       .record [("section", .quoted entry.name), ("file_name", .quoted entry.fileName)]))]

/-- The conventions as text, with all keys. -/
def toText (n : Naming) : String := Yaml.write n.toTree

end Naming

end Cartridge
