import Cartridge.Container.Basic
import Cartridge.Yaml.Writer

/-!
# Summaries

What is known of a container, for a reader or for another program.
-/
namespace Cartridge

/-- What the extended header says of the code and of what it needs. -/
structure CodeSummary where
  name : String
  text : CodeSegment
  readOnly : CodeSegment
  data : CodeSegment
  stackSize : UInt32
  bssSize : UInt32
  priority : UInt8
  services : List String
  dependencies : List UInt64
  deriving DecidableEq, Repr

structure Summary where
  path : Path
  offset : UInt64
  programId : Option UInt64
  productCode : Option String
  hasExtended : Bool
  hasExefs : Bool
  hasRomfs : Bool
  isTainted : Bool
  isCompressed : Bool
  sections : List Slot
  code : Option CodeSummary
  deriving DecidableEq

namespace CodeSummary

def ofHeader (h : ExtendedHeader) : CodeSummary where
  name := h.codeSet.name.text
  text := h.codeSet.text
  readOnly := h.codeSet.readOnly
  data := h.codeSet.data
  stackSize := h.codeSet.stackSize
  bssSize := h.codeSet.bssSize
  priority := h.capabilities.system.priority
  services := h.capabilities.system.services
  dependencies := h.dependencies

open Yaml (Node Tree)

def segmentTree (s : CodeSegment) : Tree :=
  .record
    [("address", .number s.address.toNat), ("num_max_pages", .number s.maxPages.toNat),
     ("code_size", .number s.size.toNat)]

def toTree (c : CodeSummary) : Tree :=
  .record
    [("name", .quoted c.name),
     ("text", segmentTree c.text),
     ("ro", segmentTree c.readOnly),
     ("data", segmentTree c.data),
     ("stack_size", .number c.stackSize.toNat),
     ("bss_size", .number c.bssSize.toNat),
     ("priority", .number c.priority.toNat),
     ("services", .list (c.services.map .quoted)),
     ("dependencies", .list (c.dependencies.map fun id => .quoted (Hex.id id)))]

end CodeSummary

namespace Summary

open Yaml (Node Tree)

def ofContainer (c : Container) : Summary where
  path := c.path
  offset := c.offset
  programId := c.header?.map ContainerHeader.programId
  productCode := c.header?.map fun header => header.productCode.text
  hasExtended := c.hasExtended
  hasExefs := c.hasExefs
  hasRomfs := c.hasRomfs
  isTainted := c.isTainted
  isCompressed := c.isCompressed
  sections := (c.table?.map SectionTable.used).getD []
  code := c.extended?.map CodeSummary.ofHeader

def textOrNull (text : Option String) : Tree := (text.map Node.quoted).getD .null

def slotTree (s : Slot) : Tree :=
  .record
    [("name", .quoted s.name.text), ("offset", .number s.offset.toNat),
     ("size", .number s.size.toNat)]

def toTree (s : Summary) : Tree :=
  .record <|
    [("path", .quoted s.path.text),
     ("ncch_offset", .number s.offset.toNat),
     ("program_id", textOrNull (s.programId.map Hex.id)),
     ("product_code", textOrNull s.productCode),
     ("has_exheader", .bool s.hasExtended),
     ("has_exefs", .bool s.hasExefs),
     ("has_romfs", .bool s.hasRomfs),
     ("is_tainted", .bool s.isTainted),
     ("is_compressed", .bool s.isCompressed),
     ("exefs_sections", .list (s.sections.map slotTree))] ++
    (s.code.map fun code => ("codeset", code.toTree)).toList

def toText (s : Summary) : String := Yaml.write s.toTree

end Summary

end Cartridge
