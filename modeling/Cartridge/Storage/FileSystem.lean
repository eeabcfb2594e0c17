import Cartridge.Bytes
import Cartridge.Storage.Error

/-!
# File systems

A file system maps names to numbered files and to directories. An entry and an open
handle hold the same thing, the number of a file: a handle goes on reading its file after
the entry is removed, and sees what is later written to it under any name. A path that is
removed and written again gets a file of its own.
-/
namespace Cartridge

/-- What an entry leads to and what an open handle holds. -/
inductive Handle where
  | file (number : Nat)
  | directory
  deriving DecidableEq, Repr, Inhabited

/-- A place is the list of names on the way from the root. The root has no entry
and is always a directory. -/
structure FileSystem where
  contents : Array Bytes
  entries : List (List String × Handle)
  workingDirectory : List String
  deriving Inhabited

namespace FileSystem

/-- The longest name of an entry, in bytes. -/
def maxName : Nat := 255

/-- Paths of this many bytes and more are refused. -/
def maxPath : Nat := 4096

/-- The size shown for a directory. -/
def directorySize : Nat := 4096

/-- A file system with nothing in it but the directory that relative paths start from. -/
def empty (workingDirectory : List String) : FileSystem :=
  let above := (List.range workingDirectory.length).map fun n => workingDirectory.take (n + 1)
  ⟨#[], above.map fun place => (place, .directory), workingDirectory⟩

/-- The handle at a place. -/
def handleAt? (fs : FileSystem) (place : List String) : Option Handle :=
  if place = [] then some .directory else fs.entries.lookup place

/-- Walks down from a place, name by name. Only a directory can be walked through. -/
def descend (fs : FileSystem) :
    List String → List String → Except StorageFault (List String × Handle)
  | place, [] =>
    match fs.handleAt? place with
    | some handle => .ok (place, handle)
    | none => .error .notFound
  | place, name :: rest =>
    match fs.handleAt? place with
    | none => .error .notFound
    | some (.file _) => .error .notADirectory
    | some .directory =>
      if name = "." then fs.descend place rest
      else if name = ".." then fs.descend place.dropLast rest
      else if maxName < (utf8 name).length then .error .nameTooLong
      else fs.descend (place ++ [name]) rest

/-- Refuses the paths that lead nowhere whatever the entries are. -/
def checkPath (p : Path) : Except StorageFault Unit :=
  if p.text.toList.contains '\x00' then .error .nulInPath
  else if p.text.isEmpty then .error .notFound
  else if maxPath ≤ (utf8 p.text).length then .error .nameTooLong
  else .ok ()

/-- Where a path starts. -/
def origin (fs : FileSystem) (p : Path) : List String :=
  if p.isAbsolute then [] else fs.workingDirectory

/-- The place and handle that a path leads to. -/
def resolve (fs : FileSystem) (p : Path) : Except StorageFault (List String × Handle) := do
  checkPath p
  let (place, handle) ← fs.descend (fs.origin p) p.names
  match handle with
  | .file _ => if p.endsInSlash then .error .notADirectory else .ok (place, handle)
  | .directory => .ok (place, handle)

/-- Opens a file or directory for reading. -/
def openHandle (fs : FileSystem) (p : Path) : Except StorageFault Handle := (·.2) <$> fs.resolve p

def isFile (fs : FileSystem) (p : Path) : Bool :=
  match fs.openHandle p with
  | .ok (.file _) => true
  | _ => false

def isDirectory (fs : FileSystem) (p : Path) : Bool :=
  match fs.openHandle p with
  | .ok .directory => true
  | _ => false

/-- The bytes of a file. A number that was never given out has none. -/
def bytesOf (fs : FileSystem) (number : Nat) : Bytes := fs.contents.getD number #[]

def sizeOf (fs : FileSystem) : Handle → UInt64
  | .file number => UInt64.ofNat (fs.bytesOf number).size
  | .directory => UInt64.ofNat directorySize

/-- Reads exactly `length` bytes. Reading nothing always succeeds; any other read needs an
offset below 2^63, a file, and all of the bytes. -/
def readAt (fs : FileSystem) (handle : Handle) (offset : UInt64) (length : Nat) :
    Except StorageFault Bytes :=
  if length = 0 then .ok #[]
  else if 0x8000000000000000 ≤ offset then .error .invalidArgument
  else
    match handle with
    | .directory => .error .isADirectory
    | .file number =>
      let bytes := fs.bytesOf number
      if offset.toNat + length ≤ bytes.size then
        .ok (bytes.extract offset.toNat (offset.toNat + length))
      else .error .endOfFile

/-- Reads all of a file. -/
def readAll (fs : FileSystem) : Handle → Except StorageFault Bytes
  | .file number => .ok (fs.bytesOf number)
  | .directory => .error .isADirectory

/-- The directory in which a path would make an entry, and the name of that entry. There is no
name if the path ends in the root or in a name that stands for a directory. -/
def newEntry (fs : FileSystem) (p : Path) : Except StorageFault (List String × Option String) := do
  checkPath p
  match p.names.getLast? with
  | none => .ok ([], none)
  | some name =>
    let (place, handle) ← fs.descend (fs.origin p) p.names.dropLast
    match handle with
    | .file _ => .error .notADirectory
    | .directory =>
      if name = "." || name = ".." then .ok (place, none) else .ok (place, some name)

/-- Puts an entry at a place, in front of any earlier one. -/
def insert (fs : FileSystem) (place : List String) (handle : Handle) : FileSystem :=
  { fs with entries := (place, handle) :: fs.entries.filter (·.1 != place) }

/-- Replaces the bytes of a file. -/
def setBytes (fs : FileSystem) (number : Nat) (bytes : Bytes) : FileSystem :=
  { fs with contents := fs.contents.setIfInBounds number bytes }

/-- Makes a file or empties the one that is there, and opens it for writing. -/
def create (fs : FileSystem) (p : Path) : Except StorageFault (Nat × FileSystem) := do
  match ← fs.newEntry p with
  | (_, none) => .error .isADirectory
  | (place, some name) =>
    if p.endsInSlash then .error .isADirectory
    else if maxName < (utf8 name).length then .error .nameTooLong
    else
      match fs.handleAt? (place ++ [name]) with
      | some .directory => .error .isADirectory
      | some (.file number) => .ok (number, fs.setBytes number #[])
      | none =>
        let number := fs.contents.size
        .ok (number, { fs.insert (place ++ [name]) (.file number) with
          contents := fs.contents.push #[] })

/-- Writes a whole file, over the one that is there. -/
def writeFile (fs : FileSystem) (p : Path) (bytes : Bytes) : Except StorageFault FileSystem := do
  let (number, created) ← fs.create p
  .ok (created.setBytes number bytes)

/-- Makes one directory. -/
def makeDirectory (fs : FileSystem) (p : Path) : Except StorageFault FileSystem := do
  match ← fs.newEntry p with
  | (_, none) => .error .alreadyExists
  | (place, some name) =>
    if maxName < (utf8 name).length then .error .nameTooLong
    else
      match fs.handleAt? (place ++ [name]) with
      | some _ => .error .alreadyExists
      | none => .ok (fs.insert (place ++ [name]) .directory)

/-- Makes a directory and those above it, as many as the count allows. -/
def makeDirectoriesUpTo : Nat → FileSystem → Path → Except StorageFault FileSystem
  | 0, _, _ => .error .notFound
  | count + 1, fs, p =>
    if p.text.isEmpty then .ok fs
    else
      match fs.makeDirectory p with
      | .ok made => .ok made
      | .error .notFound => do
        let above ←
          match p.parent? with
          | some parent => makeDirectoriesUpTo count fs parent
          | none => .error .notFound
        match above.makeDirectory p with
        | .ok made => .ok made
        | .error fault => if above.isDirectory p then .ok above else .error fault
      | .error fault => if fs.isDirectory p then .ok fs else .error fault

/-- Makes a directory and those above it, where they are missing. -/
def makeDirectories (fs : FileSystem) (p : Path) : Except StorageFault FileSystem :=
  makeDirectoriesUpTo (p.names.length + 2) fs p

end FileSystem

end Cartridge
