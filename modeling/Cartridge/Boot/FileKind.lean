import Cartridge.Log
import Cartridge.Record.ContainerHeader
import Cartridge.Record.ImageHeader
import Cartridge.Storage.FileSystem

/-!
# File types

The type of an executable file shows in magic numbers near its start, or else in the extension
of its name. The contents win, unless they are of no known type.
-/
namespace Cartridge

inductive FileKind where
  /-- The file could not be read. -/
  | unreadable
  | unknown
  | elf
  | threeDsx
  | cxi
  | cci
  /-- Raw code, which shows in the name alone. -/
  | raw
  deriving DecidableEq, Repr

namespace FileKind

/-- The name for a reader. -/
def text : FileKind → String
  | .cci => "NCSD"
  | .cxi => "NCCH"
  | .threeDsx => "3DSX"
  | .elf => "ELF"
  | .raw => "raw"
  | .unreadable | .unknown => "unknown"

/-- The name that tells all types apart. -/
def tag : FileKind → String
  | .unreadable => "Error"
  | .unknown => "Unknown"
  | .elf => "Elf"
  | .threeDsx => "ThreeDsx"
  | .cxi => "Cxi"
  | .cci => "Cci"
  | .raw => "Bin"

/-- As many bytes of a file as show its type. -/
def probeSize : Nat := 0x104

/-- The type that the first bytes of a file show. -/
def ofBytes (b : Bytes) : FileKind :=
  if b.hasAt 0 [0x33, 0x44, 0x53, 0x58] then .threeDsx
  else if b.hasAt 0 [0x7f, 0x45, 0x4c, 0x46] then .elf
  else if b.hasAt 0x100 containerMagic then .cxi
  else if b.hasAt 0x100 imageMagic then .cci
  else .unknown

/-- The type that the contents of a file show. -/
def ofContents (fs : FileSystem) (path : Path) : FileKind :=
  match fs.openHandle path with
  | .error _ => .unreadable
  | .ok handle =>
    match fs.readAll handle with
    | .error _ => .unreadable
    | .ok bytes => ofBytes (bytes.extract 0 probeSize)

/-- The type that the extension of a name suggests; only the case of ASCII letters is ignored. -/
def ofExtension (path : Path) : FileKind :=
  match path.extension? with
  | none => .unknown
  | some extension =>
    match extension.map Char.toLower with
    | "elf" | "axf" => .elf
    | "cxi" => .cxi
    | "cci" | "3ds" => .cci
    | "bin" => .raw
    | "3dsx" => .threeDsx
    | _ => .unknown

/-- The type to take a file for. -/
def resolve (fs : FileSystem) (path : Path) : FileKind :=
  match ofContents fs path with
  | .unknown => ofExtension path
  | shown => shown

/-- The line that is logged if contents and extension disagree. -/
def disagreement (fs : FileSystem) (path : Path) : Log :=
  let shown := ofContents fs path
  let suggested := ofExtension path
  if shown = suggested then []
  else
    [⟨.warning, s!"File {path.text} has a different type than its extension suggests " ++
      s!"({shown.tag} vs {suggested.tag})"⟩]

end FileKind

end Cartridge
