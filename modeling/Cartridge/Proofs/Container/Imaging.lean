import Cartridge.Proofs.Container.AfterLoad
import Cartridge.Proofs.Storage.Overwriting

/-!
# An ExeFS as an image

An image that holds the bytes of the ExeFS of a container takes its place. The container loads with
it, and has the same sections: the table in the image is checked against the size of the image, which
is the size that the header gives the ExeFS, and its sections lie as far from the table as before.
-/
namespace Cartridge

open Procedure

namespace SectionTable

/-! ## Tables in a window -/

variable {b : List UInt8} {base size : Nat} (hsize : 0x200 ≤ size)
include hsize

theorem offsetNumber_window (slot : Fin 8) :
    offsetNumber ((b.drop base).take size) 0 slot = offsetNumber b base slot := by
  unfold offsetNumber
  rw [wordAt_window b base size (by omega)]
  congr 1
  omega

theorem sizeNumber_window (slot : Fin 8) :
    sizeNumber ((b.drop base).take size) 0 slot = sizeNumber b base slot := by
  unfold sizeNumber
  rw [wordAt_window b base size (by omega)]
  congr 1
  omega

theorem nameBytes_window (slot : Fin 8) :
    nameBytes ((b.drop base).take size) 0 slot = nameBytes b base slot := by
  unfold nameBytes
  rw [window_window b base size (by omega), Nat.zero_add]

theorem inside_window (limit : Nat) (slot : Fin 8) :
    Inside ((b.drop base).take size) 0 limit slot ↔ Inside b base limit slot := by
  unfold Inside
  rw [offsetNumber_window hsize, sizeNumber_window hsize]

theorem slotNamed?_window (name : String) :
    slotNamed? ((b.drop base).take size) 0 name = slotNamed? b base name := by
  unfold slotNamed?
  simp only [sizeNumber_window hsize, nameBytes_window hsize]

end SectionTable

namespace Container

variable {fs now : FileSystem} {path image : Path} {offset : UInt64} {naming : Naming}
  {file : Handle} {header : ContainerHeader} {c d : Container} {b : List UInt8}
  {base start size number : Nat} {name : String}

theorem regionAt_window {place length : Nat} (hinside : place + length ≤ size)
    (hall : base + size ≤ b.length) (what : String) :
    regionAt ((b.drop base).take size) place length what = regionAt b (base + place) length what := by
  have hwhole : ((b.drop base).take size).length = size := by
    rw [List.length_take, List.length_drop]
    omega
  unfold regionAt
  rw [if_pos (by omega), if_pos (by omega), window_window b base size hinside]

/-! ## The image -/

/-- The file at the path of the image holds a piece of the file of the container, which stays as it
was. Nothing was at that path before. -/
structure Imaged (fs now : FileSystem) (image : Path) (file : Handle) (base size number : Nat) :
    Prop where
  stores : fs.Stores [image] now
  missing : fs.isFile image = false
  opens : now.openHandle image = .ok (.file number)
  holds : now.bytesBehind (.file number) = ((fs.bytesBehind file).drop base).take size
  own_eq : now.bytesBehind file = fs.bytesBehind file
  others : ∀ other, other ≠ number → now.bytesOf other = fs.bytesOf other
  fits : base + size ≤ (fs.bytesBehind file).length
  large : 0x200 ≤ size

/-- A file with bytes has a number that was given out. -/
theorem number_lt_of_bytes {own : Nat} (h : 0 < (fs.bytesBehind (.file own)).length) :
    own < fs.contents.size := by
  rcases Nat.lt_or_ge own fs.contents.size with hlow | hhigh
  · exact hlow
  · simp [FileSystem.bytesBehind, FileSystem.bytesOf, Array.getElem?_eq_none hhigh] at h

theorem imaged_of_store (hmissing : fs.isFile image = false)
    (hfits : base + size ≤ (fs.bytesBehind file).length) (hlarge : 0x200 ≤ size)
    (hstore : fs.store image (((fs.bytesBehind file).drop base).take size).toArray = .ok now) :
    ∃ number, Imaged fs now image file base size number := by
  have hclosed (found : Nat) : fs.openHandle image ≠ .ok (.file found) := by
    intro hopen
    rw [FileSystem.isFile_iff.mpr ⟨found, hopen⟩] at hmissing
    cases hmissing
  obtain ⟨number, hw⟩ := (FileSystem.overwrites_of_store hstore).exists_written
    fun found hopen => absurd hopen (hclosed found)
  have hnew : number = fs.contents.size := by
    rcases hw.before with hopen | ⟨-, hnew⟩
    · exact absurd hopen (hclosed number)
    · exact hnew
  refine ⟨number, hw.stores, hmissing, hw.opens, ?_, ?_, hw.others, hfits, hlarge⟩
  · rw [FileSystem.bytesBehind, hw.holds]
  · cases file with
    | directory => rfl
    | file own =>
      have hlow : own < fs.contents.size := number_lt_of_bytes (by omega)
      rw [FileSystem.bytesBehind, FileSystem.bytesBehind, hw.others own (by omega)]

namespace Imaged

variable (h : Imaged fs now image file base size number)
include h

theorem not_usable : ¬UsableImage fs image := by
  intro husable
  have hsome := image_isSome_iff.mpr husable
  rw [Source.ofFile, h.missing] at hsome
  cases hsome

theorem length_eq : (now.bytesBehind (.file number)).length = size := by
  have hfits := h.fits
  rw [h.holds, List.length_take, List.length_drop]
  omega

theorem addressable (hfs : fs.Addressable) : now.Addressable := by
  intro other
  by_cases hother : other = number
  · have hlength := h.length_eq
    have hfits := h.fits
    rw [FileSystem.bytesBehind, Array.length_toList] at hlength
    rw [hother, hlength]
    cases file with
    | directory =>
      rw [FileSystem.bytesBehind, List.length_nil] at hfits
      omega
    | file own =>
      have hown := hfs own
      rw [FileSystem.bytesBehind, Array.length_toList] at hfits
      omega
  · rw [h.others other hother]
    exact hfs other

/-- The image can be used if the slots of the ExeFS are inside of it. -/
theorem usable (hlow : size < 2 ^ 64)
    (hinside : ∀ slot : Fin 8, SectionTable.Inside (fs.bytesBehind file) base size slot) :
    UsableImage now image := by
  have hlength := h.length_eq
  have hlarge := h.large
  have hbytes : (now.bytesOf number).size = size := by
    rw [← hlength, FileSystem.bytesBehind, Array.length_toList]
  have hsize : (now.sizeOf (.file number)).toNat = size := by
    rw [FileSystem.sizeOf, hbytes, UInt64.toNat_ofNat', Nat.mod_eq_of_lt hlow]
  have hholds : (now.bytesOf number).toList = ((fs.bytesBehind file).drop base).take size := h.holds
  unfold UsableImage
  rw [h.opens]
  dsimp only
  rw [hbytes, hsize, hholds]
  exact ⟨hlarge, fun slot => (SectionTable.inside_window hlarge size slot).mpr (hinside slot)⟩

end Imaged

/-! ## The sections -/

/-- The image holds the ExeFS that the header of a container declares. -/
abbrev ExefsImaged (fs now : FileSystem) (image : Path) (file : Handle) (start number : Nat) :
    Prop :=
  Imaged fs now image file (start + 0x200 * wordAt (fs.bytesBehind file) (start + 0x1a0) 4)
    (0x200 * wordAt (fs.bytesBehind file) (start + 0x1a4) 4) number

theorem ExefsImaged.declared (h : ExefsImaged fs now image file start number) :
    wordAt (fs.bytesBehind file) (start + 0x1a4) 4 ≠ 0 := by
  have hlarge := h.large
  omega

theorem ExefsImaged.usable (h : ExefsImaged fs now image file start number)
    (hin : TableIn (fs.bytesBehind file) start) : UsableImage now image := by
  have hlow := wordAt_lt (fs.bytesBehind file) (start + 0x1a4) 4
  exact Imaged.usable h (by omega) hin.2

/-- Where the sections are before, and where they are in the image. -/
theorem ExefsImaged.exefsPlace_eq (h : ExefsImaged fs now image file start number)
    (hin : TableIn (fs.bytesBehind file) start) :
    exefsPlace? fs image file start =
        some (file, start + 0x200 * wordAt (fs.bytesBehind file) (start + 0x1a0) 4) ∧
      exefsPlace? now image file start = some (.file number, 0) := by
  constructor
  · rw [exefsPlace?, if_neg h.not_usable, if_pos h.declared]
  · rw [exefsPlace?, if_pos (h.usable hin), h.opens]
    rfl

/-- A section of the image is the section of the ExeFS. -/
theorem ExefsImaged.storedOutcome_eq (h : ExefsImaged fs now image file start number)
    (hin : TableIn (fs.bytesBehind file) start) (name : String) :
    storedOutcome now image file start name = storedOutcome fs image file start name := by
  obtain ⟨hbefore, hafter⟩ := h.exefsPlace_eq hin
  unfold storedOutcome
  rw [hbefore, hafter]
  dsimp only
  rw [h.holds, h.own_eq, SectionTable.slotNamed?_window h.large]
  cases hslot : SectionTable.slotNamed? (fs.bytesBehind file)
      (start + 0x200 * wordAt (fs.bytesBehind file) (start + 0x1a0) 4) name with
  | none => rfl
  | some slot =>
    dsimp only
    have hused : SectionTable.sizeNumber (fs.bytesBehind file)
        (start + 0x200 * wordAt (fs.bytesBehind file) (start + 0x1a0) 4) slot ≠ 0 := by
      unfold SectionTable.slotNamed? at hslot
      have hfound := List.find?_some hslot
      exact (of_decide_eq_true hfound).1
    have hinside := (hin.2 slot).resolve_left hused
    rw [SectionTable.offsetNumber_window h.large, SectionTable.sizeNumber_window h.large,
      regionAt_window (by omega) h.fits, Nat.zero_add, ← Nat.add_assoc]

/-- So is every section, unless the logo had a region of its own. -/
theorem ExefsImaged.sectionOutcome_eq
    (h : ExefsImaged fs now (path.withSuffix naming.imageSuffix) file start number)
    (hin : TableIn (fs.bytesBehind file) start)
    (hplain : (OverrideSet.resolve fs path naming).sections = [])
    (hsections : (OverrideSet.resolve now path naming).sections = [])
    (hlogo : name = logoSection → ¬LogoRegion fs (path.withSuffix naming.imageSuffix) file start) :
    sectionOutcome now path naming file start name =
      sectionOutcome fs path naming file start name := by
  have hsource (o : OverrideSet) (hnone : o.sections = []) : o.section? name = .embedded := by
    rw [OverrideSet.section?, hnone]
    rfl
  unfold sectionOutcome
  dsimp only
  rw [hsource _ hplain, hsource _ hsections]
  dsimp only
  rw [if_neg fun hboth => hboth.2.1 (h.usable hin), if_neg fun hboth => hlogo hboth.1 hboth.2]
  exact h.storedOutcome_eq hin name

/-! ## The container -/

theorem FirstLoaded.exefs_eq (h : FirstLoaded fs path offset naming file header c) :
    header.exefs.byteOffset.toNat =
        0x200 * wordAt (fs.bytesBehind file) (offset.toNat + 0x1a0) 4 ∧
      header.exefs.byteSize.toNat =
        0x200 * wordAt (fs.bytesBehind file) (offset.toNat + 0x1a4) 4 ∧
      (header.hasExefs = true ↔ wordAt (fs.bytesBehind file) (offset.toNat + 0x1a4) 4 ≠ 0) := by
  obtain ⟨block, rfl, -, hlist⟩ := headerAt_eq_ok h.header_read
  rw [h.offset_eq] at hlist
  exact ⟨ContainerHeader.exefs_byteOffset_ofBlock hlist,
    ContainerHeader.exefs_byteSize_ofBlock hlist, ContainerHeader.hasExefs_ofBlock hlist⟩

theorem FirstLoaded.isPresent_of_logoRegion (h : FirstLoaded fs path offset naming file header c)
    (hregion : LogoRegion fs image file offset.toNat) : header.logo.isPresent = true := by
  obtain ⟨block, rfl, -, hlist⟩ := headerAt_eq_ok h.header_read
  rw [h.offset_eq] at hlist
  exact (ContainerHeader.logo_isPresent_ofBlock hlist).mpr hregion.2

/-- The table in use, read from where the ExeFS is. -/
theorem Gathered.table_eq (h : Gathered fs image file header c) {exefs : Handle}
    (hplace : exefsPlace? fs image file c.offset.toNat = some (exefs, base)) :
    ∃ block : Block SectionTable.byteSize, c.table? = some (.ofBlock block) ∧
      block.toList = ((fs.bytesBehind exefs).drop base).take 0x200 := by
  rcases h.store_cases with ⟨-, hnone⟩ | ⟨store, block, hstore, hsome, htable, -, hlist⟩
  · rw [hplace] at hnone
    cases hnone
  · rw [hplace] at hsome
    cases hsome
    refine ⟨block, ?_, hlist⟩
    rw [table?, h.store?_eq, hstore, Option.map_some, htable]

theorem ExefsImaged.table?_eq {header' : ContainerHeader}
    (h : ExefsImaged fs now image file start number) (hin : TableIn (fs.bytesBehind file) start)
    (hc : Gathered fs image file header c) (hd : Gathered now image file header' d)
    (hcstart : c.offset.toNat = start) (hdstart : d.offset.toNat = start) :
    d.table? = c.table? := by
  obtain ⟨hbefore, hafter⟩ := h.exefsPlace_eq hin
  rw [← hcstart] at hbefore
  rw [← hdstart] at hafter
  obtain ⟨block, htable, hlist⟩ := hc.table_eq hbefore
  obtain ⟨block', htable', hlist'⟩ := hd.table_eq hafter
  rw [h.holds, window_window _ _ _ (by have hlarge := h.large; omega), Nat.add_zero, ← hcstart,
    ← hlist] at hlist'
  rw [htable, htable', Vector.toList_inj.mp hlist']

/-- A section of a container that was just loaded, read while the files are as they were. -/
theorem FirstLoaded.readSection_eq {s : Session}
    (h : FirstLoaded fs path offset naming file header s.container) (hfs : fs.Addressable)
    (name : String) :
    (s.run fs (.readSection name)).1 =
      (sectionOutcome fs path naming file offset.toNat name).map .bytes := by
  rw [h.ready.outcome_run, answer, h.sectionAnswer_eq hfs, h.path_eq, h.naming_eq, h.offset_eq]

/-- If the bytes of the ExeFS are put into a file at the path of the image, the container loads with
this image, is tainted, and has the same table. Each section is read as before, but for a logo that
was in a region of its own. -/
theorem readSection_of_image (path : Path) (offset : UInt64) (naming : Naming)
    (hfs : fs.Addressable)
    (hloaded : (Session.loading fs path offset naming).container.stage = .loaded)
    (hplain : OverrideSet.resolve fs path naming = .empty)
    (hfile : (Session.loading fs path offset naming).container.file = some file)
    (hheader : (Session.loading fs path offset naming).container.header = some header)
    (hexefs : header.hasExefs = true)
    (hfits : offset.toNat + header.exefs.byteOffset.toNat + header.exefs.byteSize.toNat ≤
      (fs.bytesBehind file).length)
    (hstore : fs.store (path.withSuffix naming.imageSuffix)
      (((fs.bytesBehind file).drop (offset.toNat + header.exefs.byteOffset.toNat)).take
        header.exefs.byteSize.toNat).toArray = .ok now)
    (hromfs : (OverrideSet.resolve now path naming).romfs = .embedded)
    (hsections : (OverrideSet.resolve now path naming).sections = []) :
    let before := Session.loading fs path offset naming
    let after := Session.loading now path offset naming
    after.container.stage = .loaded ∧ after.container.usesImage = true ∧
    after.container.overrides = ⟨.override (path.withSuffix naming.imageSuffix), .embedded, []⟩ ∧
    after.container.isTainted = true ∧ after.container.table? = before.container.table? ∧
    ∀ name, (name = logoSection → header.logo.isPresent = false) →
      (after.run now (.readSection name)).1 = (before.run fs (.readSection name)).1 := by
  intro before after
  obtain ⟨file', header', hfirst, -⟩ := load_of_stage hloaded
  obtain rfl : file' = file := Option.some.inj (hfirst.file_eq.symm.trans hfile)
  obtain rfl : header' = header := Option.some.inj (hfirst.header_eq.symm.trans hheader)
  obtain ⟨hplace, hsize, hdeclared⟩ := hfirst.exefs_eq
  have hword := hdeclared.mp hexefs
  have hmissing : fs.isFile (path.withSuffix naming.imageSuffix) = false := by
    have hnone : (OverrideSet.resolve fs path naming).exefs = .embedded := by rw [hplain]; rfl
    simpa [OverrideSet.resolve, Source.ofFile] using hnone
  rw [hplace, hsize] at hfits hstore
  obtain ⟨number, himaged⟩ : ∃ number, ExefsImaged fs now _ file' offset.toNat number :=
    imaged_of_store hmissing hfits (by omega) hstore
  have hnow : now.openPath path = .ok file' := by
    have hopen := himaged.stores.openHandle_of_ok (mapError_eq_ok.mp hfirst.file_at)
    exact mapError_eq_ok.mpr hopen
  obtain ⟨hheaders, htable⟩ := (loaded_iff hfirst.file_at).mp hloaded
  have hin := (htable.resolve_left himaged.not_usable).resolve_left hword
  have husable := himaged.usable hin
  have hafter : after.container.stage = .loaded := by
    apply (loaded_iff hnow).mpr
    rw [himaged.own_eq]
    exact ⟨hheaders, .inl husable⟩
  obtain ⟨file, header, hlast, -⟩ := load_of_stage hafter
  obtain rfl : file = file' := Except.ok.inj (hlast.file_at.symm.trans hnow)
  have hsource := hlast.source_eq
  have hbase := hlast.recorded
  rw [hlast.path_eq, hlast.naming_eq] at hsource hbase
  rw [if_pos husable] at hsource
  have hoverrides : after.container.overrides =
      ⟨.override (path.withSuffix naming.imageSuffix), .embedded, []⟩ :=
    hbase.trans (by simp only [hsource, hromfs, hsections])
  refine ⟨hafter, ?_, hoverrides, ?_, ?_, fun name hlogo => ?_⟩
  · rw [usesImage_of_store rfl, hsource]
    rfl
  · rw [isTainted, hoverrides]
    rfl
  · have hc := hfirst.toGathered
    have hd := hlast.toGathered
    rw [hfirst.path_eq, hfirst.naming_eq] at hc
    rw [hlast.path_eq, hlast.naming_eq] at hd
    exact himaged.table?_eq hin hc hd (congrArg UInt64.toNat hfirst.offset_eq)
      (congrArg UInt64.toNat hlast.offset_eq)
  · rw [hlast.readSection_eq (himaged.addressable hfs), hfirst.readSection_eq hfs]
    have hnone : (OverrideSet.resolve fs path naming).sections = [] := by
      rw [hplain]
      rfl
    rw [himaged.sectionOutcome_eq hin hnone hsections]
    intro hname hregion
    have hpresent := hfirst.isPresent_of_logoRegion hregion
    rw [hlogo hname] at hpresent
    cases hpresent

/-- A container with an icon, whose file holds all of its ExeFS. -/
def withIconOnly : FileSystem where
  contents := #[(containerOf (exefsOf (utf8 "icon") (utf8 "EMBD")) ++
    List.replicate 0x1fc 0).toArray]
  entries := [(["game.cxi"], .file 0)]
  workingDirectory := []

/-- The bytes of its ExeFS. -/
def iconExefs : Bytes := (((withIconOnly.bytesBehind (.file 0)).drop 0x200).take 0x400).toArray

theorem addressable_withIconOnly : withIconOnly.Addressable :=
  FileSystem.addressable_of_contents (by decide +kernel)

theorem loaded_withIconOnly :
    (Session.loading withIconOnly ⟨"game.cxi"⟩ 0 .standard).container.stage = .loaded := by
  have hrequired : ∀ requirement ∈ requirements withIconOnly ⟨"game.cxi"⟩ 0 .standard,
      requirement.holds := by decide +kernel
  exact loading_of_requirements hrequired

/-- The icon is read from the image as it was from the container. -/
theorem readSection_of_image_icon :
    let before := Session.loading withIconOnly ⟨"game.cxi"⟩ 0 .standard
    before.container.stage = .loaded ∧
    OverrideSet.resolve withIconOnly ⟨"game.cxi"⟩ .standard = .empty ∧
    ∃ now, withIconOnly.store ⟨"game.cxi.exefs"⟩ iconExefs = .ok now ∧
      let after := Session.loading now ⟨"game.cxi"⟩ 0 .standard
      after.container.stage = .loaded ∧ after.container.usesImage = true ∧
      (after.run now (.readSection "icon")).1 =
        (before.run withIconOnly (.readSection "icon")).1 := by
  dsimp only
  have hloaded := loaded_withIconOnly
  have hplain : OverrideSet.resolve withIconOnly ⟨"game.cxi"⟩ .standard = .empty := by
    decide +kernel
  refine ⟨hloaded, hplain, ?_⟩
  have hstored : ((withIconOnly.store ⟨"game.cxi.exefs"⟩ iconExefs).toOption.any fun now =>
      (OverrideSet.resolve now ⟨"game.cxi"⟩ .standard).romfs = .embedded &&
        (OverrideSet.resolve now ⟨"game.cxi"⟩ .standard).sections = []) = true := by
    decide +kernel
  obtain ⟨now, hnow, hothers⟩ := (Option.any_eq_true _ _).mp hstored
  rw [Bool.and_eq_true, decide_eq_true_eq, decide_eq_true_eq] at hothers
  have hstore := eq_ok_of_toOption hnow
  refine ⟨now, hstore, ?_⟩
  obtain ⟨file, header, hfirst, -⟩ := load_of_stage hloaded
  have hopen : (withIconOnly.openPath ⟨"game.cxi"⟩).toOption = some (.file 0) := by decide +kernel
  obtain rfl : Handle.file 0 = file :=
    Except.ok.inj ((eq_ok_of_toOption hopen).symm.trans hfirst.file_at)
  obtain ⟨hplace, hsize, hdeclared⟩ := hfirst.exefs_eq
  have hnumbers : wordAt (withIconOnly.bytesBehind (.file 0)) 0x1a0 4 = 1 ∧
      wordAt (withIconOnly.bytesBehind (.file 0)) 0x1a4 4 = 2 ∧
      (withIconOnly.bytesBehind (.file 0)).length = 0x600 := by decide +kernel
  obtain ⟨hoffset, hunits, hlength⟩ := hnumbers
  have hzero : (0 : UInt64).toNat = 0 := rfl
  rw [hzero, Nat.zero_add, hoffset] at hplace
  rw [hzero, Nat.zero_add, hunits] at hsize
  rw [hzero, Nat.zero_add, hunits] at hdeclared
  have hfits : (0 : UInt64).toNat + header.exefs.byteOffset.toNat + header.exefs.byteSize.toNat ≤
      (withIconOnly.bytesBehind (.file 0)).length := by
    omega
  have hpiece : withIconOnly.store ⟨"game.cxi.exefs"⟩
      (((withIconOnly.bytesBehind (.file 0)).drop
        ((0 : UInt64).toNat + header.exefs.byteOffset.toNat)).take
          header.exefs.byteSize.toNat).toArray = .ok now := by
    rw [hplace, hsize, hzero]
    exact hstore
  obtain ⟨hstage, himage, -, -, -, hsections⟩ := readSection_of_image ⟨"game.cxi"⟩ 0 .standard
    addressable_withIconOnly hloaded hplain hfirst.file_eq hfirst.header_eq
    (hdeclared.mpr (by decide)) hfits hpiece hothers.1 hothers.2
  exact ⟨hstage, himage, hsections "icon" (fun hlogo => absurd hlogo (by decide))⟩

end Container

end Cartridge
