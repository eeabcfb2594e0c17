import Cartridge.Command.Run

/-!
# The program

Takes a picture of the files that a command line can reach, runs the command on it, and
makes the changes of the picture to the files themselves.
-/
namespace Cartridge.Main

open Command

/-- The names on the way from the root to the directory that the program was started in. -/
def currentPlace : IO (List String) :=
  return (Path.mk (← IO.currentDir).toString).names

/-- The text of a place. -/
def placeText (place : List String) : String := "/" ++ String.intercalate "/" place

/-- The same file system with a directory and those above it. -/
def withDirectory (fs : FileSystem) (path : Path) : FileSystem :=
  (fs.makeDirectories path).toOption.getD fs

/-- Takes what a path leads to into the picture, if there is anything. -/
def capture (fs : FileSystem) (path : Path) : IO FileSystem := do
  try
    let place ← IO.FS.realPath path.text
    if ← place.isDir then return withDirectory fs path
    else
      let bytes ← IO.FS.readBinFile place
      let above := (path.parent?.map (withDirectory fs)).getD fs
      return (above.writeFile path bytes.data).toOption.getD above
  catch _ => return fs

/-- Takes a directory and the files in it into the picture. -/
def captureAll (fs : FileSystem) (directory : Path) : IO FileSystem := do
  let taken ← capture fs directory
  try
    let entries ← (← IO.FS.realPath directory.text).readDir
    entries.toList.foldlM (fun fs entry => capture fs (directory.join entry.fileName)) taken
  catch _ => return taken

/-- The paths next to a container at which override files are looked for. -/
def overridePaths (input : Path) (naming : Naming) : List Path :=
  let directory := input.withSuffix naming.directorySuffix
  [input, input.withSuffix naming.imageSuffix, input.withSuffix naming.romfsSuffix, directory] ++
    naming.files.map fun entry => directory.join entry.fileName

/-- The picture of all that a request can reach. -/
def pictureOf (request : Request) : IO FileSystem := do
  let start := FileSystem.empty (← currentPlace)
  let withNaming ←
    match request.path? .naming with
    | some path => capture start path
    | none => pure start
  let naming :=
    match request.path? .naming with
    | some path => (Naming.ofFile withNaming path).toOption.getD Naming.standard
    | none => Naming.standard
  let withInput ← (overridePaths request.input naming).foldlM capture withNaming
  match request.path? .output with
  | none => return withInput
  | some output =>
    let withOutput ← captureAll withInput output
    captureAll withOutput (output.join "exefs")

/-- Makes a directory, or writes a file, that the picture has and the picture before had not. -/
def apply (before after : FileSystem) (place : List String) (handle : Handle) : IO Unit := do
  match handle with
  | .directory =>
    if before.handleAt? place = none then IO.FS.createDirAll (placeText place)
  | .file number =>
    let bytes := after.bytesOf number
    let known := before.handleAt? place = some handle && before.bytesOf number == bytes
    if !known then IO.FS.writeBinFile (placeText place) ⟨bytes⟩

end Cartridge.Main

open Cartridge in
def main (arguments : List String) : IO UInt32 := do
  let before ←
    match Command.readArguments arguments with
    | .ok request => Main.pictureOf request
    | .error _ => pure (FileSystem.empty [])
  let result := Command.run before arguments
  (← IO.getStdout).write ⟨result.world.output⟩
  let after := result.world.fileSystem
  for (place, handle) in after.entries.reverse do
    Main.apply before after place handle
  match result.failure with
  | some failure => IO.eprintln ("Error: " ++ failure.message)
  | none => if result.exitCode = 2 then IO.eprint Command.usageText
  return UInt32.ofNat result.exitCode
