import Cartridge.Boot.Record
import Cartridge.Command.Arguments
import Cartridge.Command.HexDump
import Cartridge.Container.Summary
import Cartridge.Override.NamingFile
import Cartridge.Storage.Access

/-!
# Running a command

A command is a function of a file system and a command line: it answers what is printed,
how it ends, and the file system after it. What was printed and written before a failure stays.
-/
namespace Cartridge.Command

/-- Why a command fails. -/
inductive Failure where
  | naming (error : NamingError)
  | load (error : ContainerError)
  | file (error : AccessError)
  | range (error : RangeError)

def Failure.message : Failure → String
  | .naming (.storage fault) => fault.message
  | .naming .malformed => "the naming conventions are no valid YAML"
  | .load error => error.message
  | .file error => error.message
  | .range error => error.message

/-- The output and the file system so far. -/
structure World where
  fileSystem : FileSystem
  output : Bytes

abbrev Program := ExceptT Failure (StateM World)

/-- How a command ended, and the world after it. -/
structure Result where
  exitCode : Nat
  failure : Option Failure
  world : World

def printBytes (bytes : Bytes) : Program Unit :=
  modify fun w => { w with output := w.output ++ bytes }

def printText (text : String) : Program Unit := printBytes text.toUTF8.data

def printLine (text : String) : Program Unit := printText (text ++ "\n")

/-- An outcome as a step of a program. -/
def orFail {ε α : Type} (wrap : ε → Failure) (outcome : Except ε α) : Program α :=
  match outcome with
  | .ok value => pure value
  | .error e => throw (wrap e)

/-- Reads the file system by a procedure on a container. -/
def onContainer {α : Type} (session : Session) (procedure : FileSystem → Procedure α) :
    Program (α × Session) := do
  match (procedure (← get).fileSystem).perform session with
  | (.ok value, after) => return (value, after)
  | (.error e, _) => throw (.load e)

/-- Changes the file system. -/
def onFiles {ε : Type} (wrap : ε → Failure) (change : FileSystem → Except ε FileSystem) :
    Program Unit := do
  let changed ← orFail wrap (change (← get).fileSystem)
  modify fun w => { w with fileSystem := changed }

/-- A container that has been loaded. -/
def loaded (request : Request) (naming : Naming) : Program Session := do
  let container := (Container.new request.input request.offset).withNaming naming
  let (_, session) ← onContainer ⟨container, []⟩ Container.load
  return session

/-- A titled listing, and a line that says that there is none. -/
def listing (title missing : String) (lines : Option (List String)) : String :=
  match lines with
  | some lines => title ++ ":\n" ++ Listing.render 2 lines
  | none => missing

/-- The address of the first byte of a section: that of the program for code, else zero. -/
def baseAddress (name : String) (c : Container) : Nat :=
  if name = Container.codeSection then
    (c.extended?.map fun extended => extended.codeSet.text.address.toNat).getD 0
  else 0

def dump (request : Request) (naming : Naming) : Program Unit := do
  let session ← loaded request naming
  let c := session.container
  if request.has .showHeader then
    printLine (listing "NCCH header" "The container has no header" (c.header?.map (·.lines)))
  if request.has .showExtended then
    printLine <|
      listing "Extended header" "The container has no extended header" (c.extended?.map (·.lines))
  if request.has .showTable then
    printLine (listing "ExeFS" "The container has no ExeFS" (c.table?.map (·.lines)))
  if let some name := request.value? .printSection then
    let (bytes, _) ← onContainer session fun fs => Container.readSection fs name
    if request.has .raw then printBytes bytes
    else printText (HexDump.text (baseAddress name c) bytes.toList)
  if request.has .yaml then printText (Summary.ofContainer c).toText

/-- The file name that a section is extracted to. -/
def extractedName (naming : Naming) (name : String) : String :=
  (naming.fileName? name).getD (name ++ ".bin")

/-- Extracts one section into a directory of the output. -/
def extractSection (session : Session) (naming : Naming) (output : Path) (name : String) :
    Program Unit := do
  let (bytes, _) ← onContainer session fun fs => Container.readSection fs name
  let directory := output.join "exefs"
  onFiles (fun fault => .file (.storage fault)) fun fs => fs.makeDirectories directory
  onFiles .file fun fs => fs.store (directory.join (extractedName naming name)) bytes

/-- Copies a RomFS into a new file. What was copied before a failure stays in it. -/
def extractRange (range : FileRange) (path : Path) : Program Unit := do
  let (number, created) ←
    orFail (fun fault => .file (.storage fault)) ((← get).fileSystem.create path)
  let (outcome, sink) := range.copyTo created (Sink.ofLimit range.size.toNat)
  modify fun w => { w with fileSystem := created.setBytes number sink.received }
  discard (orFail .range outcome)

def extract (request : Request) (naming : Naming) : Program Unit := do
  let session ← loaded request naming
  let output := (request.path? .output).getD ⟨""⟩
  onFiles (fun fault => .file (.storage fault)) fun fs => fs.makeDirectories output
  let slots := (session.container.table?.map SectionTable.used).getD []
  slots.forM fun slot => extractSection session naming output slot.name.text
  match (Container.locateRomfs (← get).fileSystem).perform session with
  | (.ok range, _) => extractRange range (output.join "romfs.bin")
  | (.error e, _) => if e.status = .notUsed then pure () else throw (.load e)

def boot (request : Request) (naming : Naming) : Program Unit := do
  let report := BootRecord.boot (← get).fileSystem request.input naming .empty
  let kind ← orFail .load report.outcome
  printLine s!"Booted {request.input.text} as {kind.text}"
  if let some programId := report.record.programId then
    printLine s!"  Program ID . : {Hex.id programId}"
  if let some range := report.record.romfs then
    printLine <|
      s!"  RomFS archive : {range.path.text} at {Hex.short range.offset.toNat}, " ++
        s!"size {Hex.short range.size.toNat}"

/-- The naming conventions that a request asks for. -/
def requestedNaming (request : Request) : Program Naming := do
  match request.path? .naming with
  | some path => orFail .naming (Naming.ofFile (← get).fileSystem path)
  | none => return Naming.standard

def perform (request : Request) : Program Unit := do
  let naming ← requestedNaming request
  match request.verb with
  | .dump => dump request naming
  | .extract => extract request naming
  | .boot => boot request naming

/-- The program with its version. -/
def versionLine : String := "ncch-cli 0.1.0\n"

def usageText : String :=
  "Usage: ncch-cli [-c FILE] [-v]... <COMMAND>\n\n" ++
  "  dump -i FILE [-O OFFSET] [-H] [-x] [-e] [-s NAME [-R]] [--yaml]\n" ++
  "  extract -i FILE [-O OFFSET] -o DIRECTORY\n" ++
  "  boot -i FILE\n"

/-- Runs a command line. -/
def run (fs : FileSystem) (arguments : List String) : Result :=
  match readArguments arguments with
  | .error .usage => ⟨2, none, ⟨fs, #[]⟩⟩
  | .error .version => ⟨0, none, ⟨fs, versionLine.toUTF8.data⟩⟩
  | .error .help => ⟨0, none, ⟨fs, usageText.toUTF8.data⟩⟩
  | .ok request =>
    match (perform request).run.run ⟨fs, #[]⟩ with
    | (.ok (), world) => ⟨0, none, world⟩
    | (.error failure, world) => ⟨1, some failure, world⟩

end Cartridge.Command
