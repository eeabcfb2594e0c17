import Cartridge.Proofs.Container.Answers

/-!
# What the sections are

The sections of a container, told from the bytes of the files that it was loaded from: the file that
overrides a section, the region of the logo, and the ExeFS, which is an image or a part of the
container. Reading a section gives what is told here.
-/
namespace Cartridge

open Procedure

namespace FileSystem

variable {fs : FileSystem}

/-- Offsets in files are signed numbers of 64 bits, and reach all of every file. -/
def Addressable (fs : FileSystem) : Prop := ∀ number, (fs.bytesOf number).size < 2 ^ 63

theorem addressable_of_contents (h : ∀ bytes ∈ fs.contents, bytes.size < 2 ^ 63) :
    fs.Addressable := by
  intro number
  rw [bytesOf, Array.getD_eq_getD_getElem?]
  cases hbytes : fs.contents[number]? with
  | none => decide
  | some bytes => exact h bytes (Array.mem_of_getElem? hbytes)

/-- The whole contents of the file at a path. -/
def contentsAt (fs : FileSystem) (p : Path) : Bytes :=
  match fs.openHandle p with
  | .ok (.file number) => fs.bytesOf number
  | _ => #[]

theorem wholeFile?_of_isFile {p : Path} (h : fs.isFile p) :
    fs.wholeFile? p = some (fs.contentsAt p) := by
  unfold isFile at h
  unfold wholeFile? contentsAt
  cases hopen : fs.openHandle p with
  | error fault =>
    rw [hopen] at h
    cases h
  | ok handle =>
    rw [hopen] at h
    cases handle with
    | directory => cases h
    | file number => rfl

end FileSystem

namespace OverrideSet

/-- A section file that is found is a file, and the conventions have a name for it. -/
theorem section?_resolve {fs : FileSystem} {path p : Path} {naming : Naming} {name : String}
    (h : (resolve fs path naming).section? name = .override p) :
    fs.isFile p ∧ naming.fileName? name ≠ none := by
  have hmem : (name, p) ∈ sectionFiles fs path naming :=
    mem_of_lookup (section?_eq_override.mp h)
  unfold sectionFiles at hmem
  dsimp only at hmem
  split at hmem
  · obtain ⟨hnamed, hfile⟩ := List.mem_filter.mp hmem
    obtain ⟨entry, hentry, hsame⟩ := List.mem_map.mp hnamed
    cases hsame
    refine ⟨hfile, fun hnone => ?_⟩
    rw [Naming.fileName?, Option.map_eq_none_iff, List.find?_eq_none] at hnone
    exact hnone entry hentry (decide_eq_true rfl)
  · cases hmem

end OverrideSet

namespace Container

variable {fs : FileSystem} {image : Path} {file : Handle} {header : ContainerHeader}
  {c : Container} {name : String}

/-! ## The sections of a container -/

/-- The bytes of a region, if all of them are in the file. -/
def regionAt (b : List UInt8) (start length : Nat) (what : String) : Except ContainerError Bytes :=
  if start + length ≤ b.length then .ok ((b.drop start).take length).toArray
  else
    .error (.regionOutOfBounds what (UInt64.ofNat start) (UInt64.ofNat length)
      (UInt64.ofNat b.length))

/-- The file of the ExeFS in use, and where it starts there. -/
def exefsPlace? (fs : FileSystem) (image : Path) (file : Handle) (start : Nat) :
    Option (Handle × Nat) :=
  let b := fs.bytesBehind file
  if UsableImage fs image then (fs.openHandle image).toOption.map fun opened => (opened, 0)
  else if wordAt b (start + 0x1a4) 4 ≠ 0 then
    some (file, start + 0x200 * wordAt b (start + 0x1a0) 4)
  else none

/-- Whether the extended header of a container says that its code is compressed. -/
def CodeCompressed (b : List UInt8) (start : Nat) : Prop :=
  wordAt b (start + 0x180) 4 ≠ 0 ∧ wordAt b (start + 0x200 + 0xd) 1 % 2 = 1

instance {b : List UInt8} {start : Nat} : Decidable (CodeCompressed b start) := by
  unfold CodeCompressed
  infer_instance

/-- Whether the logo has a region of its own. An image brings its own logo. -/
def LogoRegion (fs : FileSystem) (image : Path) (file : Handle) (start : Nat) : Prop :=
  let b := fs.bytesBehind file
  ¬UsableImage fs image ∧ wordAt b (start + 0x198) 4 ≠ 0 ∧ wordAt b (start + 0x19c) 4 ≠ 0

instance {start : Nat} : Decidable (LogoRegion fs image file start) := by
  unfold LogoRegion
  infer_instance

/-- A section of the ExeFS in use. -/
def storedOutcome (fs : FileSystem) (image : Path) (file : Handle) (start : Nat) (name : String) :
    Except ContainerError Bytes :=
  match exefsPlace? fs image file start with
  | none => .error (.notUsed "ExeFS")
  | some (exefs, base) =>
    let b := fs.bytesBehind exefs
    match SectionTable.slotNamed? b base name with
    | none => .error (.notUsed s!"ExeFS section '{name}'")
    | some slot => do
      let bytes ← regionAt b (base + 0x200 + SectionTable.offsetNumber b base slot)
        (SectionTable.sizeNumber b base slot) s!"ExeFS section '{name}'"
      if name = codeSection ∧ CodeCompressed (fs.bytesBehind file) start then
        (Compression.decompress bytes).mapError .compression
      else return bytes

/-- A section of the container that starts at a place of a file. -/
def sectionOutcome (fs : FileSystem) (path : Path) (naming : Naming) (file : Handle) (start : Nat)
    (name : String) : Except ContainerError Bytes :=
  let image := path.withSuffix naming.imageSuffix
  let b := fs.bytesBehind file
  match (OverrideSet.resolve fs path naming).section? name with
  | .override p => .ok (fs.contentsAt p)
  | .embedded =>
    if name = logoSection ∧ LogoRegion fs image file start then
      regionAt b (start + 0x200 * wordAt b (start + 0x198) 4)
        (0x200 * wordAt b (start + 0x19c) 4) "logo region"
    else storedOutcome fs image file start name

/-! ## The parts of a loaded container in its files -/

theorem headerAt_eq_ok {start : UInt64} (h : headerAt fs file start = .ok header) :
    ∃ block : Block ContainerHeader.byteSize, header = .ofBlock block ∧
      fs.Readable file start.toNat 0x200 ∧
      block.toList = ((fs.bytesBehind file).drop start.toNat).take 0x200 := by
  rcases headerAt_cases fs file start with ⟨e, herror, -⟩ | ⟨block, hblock, -, hread, hlist⟩
  · rw [herror] at h
    cases h
  · rw [hblock] at h
    cases h
    exact ⟨block, rfl, hread, hlist⟩

theorem tableAt_eq_ok {start limit : UInt64} {table : SectionTable}
    (h : tableAt fs file start limit = .ok table) :
    ∃ block : Block SectionTable.byteSize, table = .ofBlock block ∧
      fs.Readable file start.toNat 0x200 ∧
      block.toList = ((fs.bytesBehind file).drop start.toNat).take 0x200 := by
  have hread := readable_of_tableAt h
  obtain ⟨block, hlist, htable⟩ := tableAt_of_readable limit hread
  rw [htable, bind_eq_ok] at h
  obtain ⟨_, -, hblock⟩ := h
  cases hblock
  exact ⟨block, rfl, hread, hlist⟩

theorem extendedAt_eq_ok {start : UInt64} {extended : ExtendedHeader}
    (h : extendedAt fs file start = .ok extended) :
    ∃ block : Block ExtendedHeader.byteSize, extended = .ofBlock block ∧
      block.toList = ((fs.bytesBehind file).drop start.toNat).take 0x800 := by
  by_cases hread : fs.Readable file start.toNat 0x800
  · obtain ⟨block, hlist, hextended⟩ := extendedAt_of_readable hread
    rw [hextended] at h
    cases h
    exact ⟨block, rfl, hlist⟩
  · rw [extendedAt_of_not_readable hread] at h
    cases h

theorem usable_of_store {store : SectionStore} (hrecorded : Source.ofFile fs image = .override image)
    (hread : imageStore? fs image = some store) : UsableImage fs image := by
  rw [← image_isSome_iff, hrecorded]
  simp [Source.path?, hread]

theorem not_usable_of_none (h : (Source.ofFile fs image).path?.bind (imageStore? fs) = none) :
    ¬UsableImage fs image := by
  rw [← image_isSome_iff, h]
  nofun

theorem readRegion_eq (hfs : fs.Addressable) {place n : Nat} (hn : 0 < n)
    (hread : fs.Readable file place n) (start length : UInt64) (what : String) :
    readRegion fs file start length what =
      regionAt (fs.bytesBehind file) start.toNat length.toNat what := by
  cases file with
  | directory =>
    have hfits := hread.2
    simp only [FileSystem.bytesBehind, List.length_nil] at hfits
    omega
  | file number =>
    have hshort := hfs number
    have hlength : (fs.bytesBehind (.file number)).length = (fs.bytesOf number).size :=
      Array.length_toList
    have hsize : (fs.sizeOf (.file number)).toNat = (fs.bytesOf number).size := by
      rw [FileSystem.sizeOf, UInt64.toNat_ofNat']
      omega
    unfold readRegion regionAt
    dsimp only
    rw [hsize, hlength]
    by_cases hfits : start.toNat + length.toNat ≤ (fs.bytesOf number).size
    · rw [if_neg (Nat.not_lt.mpr hfits), if_pos hfits]
      by_cases hempty : length.toNat = 0
      · rw [hempty, List.take_zero]
        rfl
      · have hthere : fs.Readable (.file number) start.toNat length.toNat :=
          ⟨by omega, by rwa [hlength]⟩
        obtain ⟨bytes, hbytes, hlist⟩ :=
          FileSystem.readExactly_of_readable (Nat.pos_of_ne_zero hempty) hthere
        rw [hbytes, ← hlist, Array.toArray_toList]
        rfl
    · rw [if_pos (Nat.not_le.mp hfits), if_neg hfits, UInt64.ofNat_toNat, UInt64.ofNat_toNat]
      rfl

namespace Gathered

variable (h : Gathered fs image file header c)
include h

/-- The sections come from the image exactly if that can be used. -/
theorem source_eq :
    sourceOf c.store = if UsableImage fs image then .override image else .embedded := by
  have hfound := storeFound h.store_read
  generalize c.store = store at hfound
  cases hfound with
  | image hrecorded hread =>
    rw [if_pos (usable_of_store hrecorded hread)]
    exact imageStore_source hread
  | embedded hnone =>
    rw [if_neg (not_usable_of_none hnone)]
    rfl
  | absent hnone =>
    rw [if_neg (not_usable_of_none hnone)]
    rfl

theorem usesImage_iff : (sourceOf c.store).isOverride = true ↔ UsableImage fs image := by
  rw [h.source_eq]
  split
  · exact iff_of_true rfl ‹_›
  · exact iff_of_false nofun ‹_›

theorem isCompressed_iff :
    c.isCompressed = true ↔ CodeCompressed (fs.bytesBehind file) c.offset.toNat := by
  obtain ⟨block, rfl, hread, hlist⟩ := headerAt_eq_ok h.header_read
  have hdeclared := ContainerHeader.hasExtended_ofBlock hlist
  rw [h.compressed_eq, CodeCompressed, ← hdeclared]
  rcases findExtended_eq_ok h.extended_read with ⟨hsize, extended, hextended, -, hsome⟩ |
    ⟨hsize, hnone⟩
  · obtain ⟨body, rfl, hbody⟩ := extendedAt_eq_ok hextended
    have hplace : (c.offset + UInt64.ofNat ContainerHeader.byteSize).toNat =
        c.offset.toNat + 0x200 := toNat_add_of_low hread.1 (by decide)
    rw [hplace] at hbody
    rw [hsome, hsize, Option.any_some, ExtendedHeader.isCompressed_ofBlock hbody]
    simp
  · rw [hnone, hsize]
    simp

/-- The ExeFS in use starts where the files say, and its table is read from there. -/
theorem store_cases :
    (c.store = none ∧ exefsPlace? fs image file c.offset.toNat = none) ∨
    ∃ (store : SectionStore) (block : Block SectionTable.byteSize), c.store = some store ∧
      exefsPlace? fs image file c.offset.toNat = some (store.file, store.base.toNat) ∧
      store.table = .ofBlock block ∧ fs.Readable store.file store.base.toNat 0x200 ∧
      block.toList = ((fs.bytesBehind store.file).drop store.base.toNat).take 0x200 := by
  obtain ⟨header, rfl, hread, hlist⟩ := headerAt_eq_ok h.header_read
  have hdeclared := ContainerHeader.hasExefs_ofBlock hlist
  have hfound := storeFound h.store_read
  unfold exefsPlace?
  dsimp only
  generalize c.store = store at hfound
  cases hfound with
  | image hrecorded hstore =>
    have husable := usable_of_store hrecorded hstore
    obtain ⟨opened, table, hopen, htable, rfl⟩ := imageStore_eq_some_iff.mp hstore
    obtain ⟨block, rfl, hthere, hblock⟩ := tableAt_eq_ok htable
    have hhandle : fs.openHandle image = .ok opened := mapError_eq_ok.mp hopen
    refine Or.inr ⟨_, block, rfl, ?_, rfl, hthere, hblock⟩
    rw [if_pos husable, hhandle]
    rfl
  | embedded hnone hsize htable =>
    have hunusable := not_usable_of_none hnone
    obtain ⟨block, rfl, hthere, hblock⟩ := tableAt_eq_ok htable
    refine Or.inr ⟨_, block, rfl, ?_, rfl, hthere, hblock⟩
    rw [if_neg hunusable, if_pos (hdeclared.mp hsize),
      toNat_add_of_low hread.1 (HashedRegion.byteOffset_lt _),
      ContainerHeader.exefs_byteOffset_ofBlock hlist]
  | absent hnone hsize =>
    have hunusable := not_usable_of_none hnone
    refine Or.inl ⟨rfl, ?_⟩
    rw [if_neg hunusable, if_neg (by rw [← hdeclared, hsize]; nofun)]

theorem storedAnswer_eq (hfs : fs.Addressable) (name : String) :
    storedAnswer fs c name = storedOutcome fs image file c.offset.toNat name := by
  unfold storedAnswer storedOutcome
  rw [h.store?_eq]
  rcases h.store_cases with ⟨hnone, hplace⟩ | ⟨store, block, hstore, hplace, htable, hread, hlist⟩
  · rw [hnone, hplace]
  · rw [hstore, hplace]
    dsimp only
    rw [htable, SectionTable.position?_ofBlock hlist]
    cases SectionTable.slotNamed? (fs.bytesBehind store.file) store.base.toNat name with
    | none => rfl
    | some slot =>
      dsimp only
      have hoffset := SectionTable.slotOf_offset hlist slot
      have hsize := SectionTable.slotOf_size hlist slot
      have hlow := hread.1
      have hunits := (SectionTable.slotOf block slot).offset.toNat_lt
      have hstart : (store.base + UInt64.ofNat SectionTable.byteSize +
            (SectionTable.slotOf block slot).offset.toUInt64).toNat =
          store.base.toNat + 0x200 +
            SectionTable.offsetNumber (fs.bytesBehind store.file) store.base.toNat slot := by
        have h200 : (UInt64.ofNat SectionTable.byteSize).toNat = 0x200 := rfl
        rw [UInt64.toNat_add, toNat_add_of_low hlow (by decide), UInt32.toNat_toUInt64, ← hoffset,
          h200]
        omega
      rw [SectionTable.get_slots_ofBlock, readRegion_eq hfs (by decide) hread, hstart,
        UInt32.toNat_toUInt64, hsize]
      congr 1
      funext bytes
      by_cases hcode : name = codeSection ∧ CodeCompressed (fs.bytesBehind file) c.offset.toNat
      · rw [if_pos hcode, if_pos (by simpa [h.isCompressed_iff] using hcode)]
      · rw [if_neg hcode, if_neg (by simpa [h.isCompressed_iff] using hcode)]

end Gathered

namespace LoadedOn

variable (h : LoadedOn fs file header c)
include h

theorem overrideAnswer_cases (name : String) :
    (∃ p, (OverrideSet.resolve fs c.path c.naming).section? name = .override p ∧
      overrideAnswer fs c name = .ok (fs.contentsAt p)) ∨
    (OverrideSet.resolve fs c.path c.naming).section? name = .embedded ∧
      ∃ e, overrideAnswer fs c name = .error e := by
  have hrecord : c.overrides.section? name =
      (OverrideSet.resolve fs c.path c.naming).section? name := by
    rw [h.recorded]
    rfl
  unfold overrideAnswer
  rw [hrecord]
  cases hsource : (OverrideSet.resolve fs c.path c.naming).section? name with
  | override p =>
    obtain ⟨hfile, hname⟩ := OverrideSet.section?_resolve hsource
    refine Or.inl ⟨p, rfl, ?_⟩
    rw [if_neg hname]
    simp only [Source.path?, Option.bind_some, FileSystem.wholeFile?_of_isFile hfile]
  | embedded =>
    refine Or.inr ⟨rfl, ?_⟩
    split
    · exact ⟨_, rfl⟩
    · exact ⟨_, rfl⟩

theorem regionOf?_eq (name : String) :
    c.regionOf? name =
      if name = logoSection ∧
          LogoRegion fs (c.path.withSuffix c.naming.imageSuffix) file c.offset.toNat then
        some header.logo
      else none := by
  obtain ⟨block, hblock, -, hlist⟩ := headerAt_eq_ok h.header_read
  have hpresent := ContainerHeader.logo_isPresent_ofBlock hlist
  rw [← hblock] at hpresent
  have himage := h.toGathered.usesImage_iff
  have hsource : c.overrides.exefs = sourceOf c.store := by rw [h.recorded]
  have hregion : LogoRegion fs (c.path.withSuffix c.naming.imageSuffix) file c.offset.toNat ↔
      (sourceOf c.store).isOverride = false ∧ header.logo.isPresent = true := by
    rw [hpresent, ← Bool.not_eq_true, himage]
    rfl
  unfold regionOf?
  simp only [hsource, h.header_eq, hregion]
  by_cases hname : name = logoSection ∧ (sourceOf c.store).isOverride = false
  · by_cases hlogo : header.logo.isPresent = true
    · simp [hname, hlogo]
    · simp [hname, hlogo]
  · rw [if_neg hname, if_neg fun hlogo => hname ⟨hlogo.1, hlogo.2.1⟩]

/-- A section of a container that was just loaded is what its files say. -/
theorem sectionAnswer_eq (hfs : fs.Addressable) (name : String) :
    sectionAnswer fs c file name =
      sectionOutcome fs c.path c.naming file c.offset.toNat name := by
  unfold sectionAnswer sectionOutcome
  dsimp only
  rcases h.overrideAnswer_cases name with ⟨p, hsource, hanswer⟩ | ⟨hsource, e, hanswer⟩
  · rw [hsource, hanswer]
  · rw [hsource, hanswer, h.regionOf?_eq name]
    dsimp only
    by_cases hlogo : name = logoSection ∧
        LogoRegion fs (c.path.withSuffix c.naming.imageSuffix) file c.offset.toNat
    · rw [if_pos hlogo, if_pos hlogo]
      obtain ⟨block, rfl, hread, hlist⟩ := headerAt_eq_ok h.header_read
      dsimp only
      rw [regionAnswer, readRegion_eq hfs (by decide) hread,
        toNat_add_of_low hread.1 (Region.byteOffset_lt _),
        ContainerHeader.logo_byteOffset_ofBlock hlist, ContainerHeader.logo_byteSize_ofBlock hlist]
    · rw [if_neg hlogo, if_neg hlogo]
      exact h.toGathered.storedAnswer_eq hfs name

end LoadedOn

/-- As long as the files stay as they were when it was loaded, and the override files are not looked
for again, each section of a container is what these files say. -/
theorem readSection_of_loaded (path : Path) (offset : UInt64) (naming : Naming)
    (before : List (FileSystem × Operation)) (fs : FileSystem) (op : Operation)
    (after : List Operation) (name : String) (hfs : fs.Addressable)
    (hbefore : ((Session.begin path offset naming).runAll before).container.stage ≠ .loaded)
    (hloaded : (((Session.begin path offset naming).runAll before).run fs op).2.container.stage =
      .loaded)
    (hafter : ∀ next ∈ after, next.isQuiet) :
    let started := (Session.begin path offset naming).runAll before
    let s := (started.run fs op).2.runAll (after.map fun next => (fs, next))
    ∃ file, s.container.file = some file ∧
      (started.container.file = some file ∨
        started.container.file = none ∧ fs.openPath path = .ok file) ∧
      (s.run fs (.readSection name)).1 =
        (sectionOutcome fs path started.container.naming file offset.toNat name).map .bytes := by
  intro started s
  have hstarted : WellFormed path offset started.container :=
    wellFormed_runAll path offset naming before
  have hformed : WellFormed path offset (started.run fs op).2.container :=
    keeps_runAll (fun _ => lasting_wellFormed) (fun _ => openFile_wellFormed) [(fs, op)] hstarted
  obtain ⟨file, header, hparts, hnaming, hopened⟩ := loadedOn_run hstarted hbefore hloaded
  have hquiet : ∀ step ∈ after.map fun next => (fs, next), step.2.isQuiet := by
    intro step hstep
    obtain ⟨next, hnext, rfl⟩ := List.mem_map.mp hstep
    exact hafter next hnext
  have hsame : s.container = (started.run fs op).2.container :=
    (hparts.toGathered.ready.runAll_quiet _ hquiet).1
  have hready : Ready s.container file := by
    rw [hsame]
    exact hparts.toGathered.ready
  refine ⟨file, hready.file_eq, ?_, ?_⟩
  · rw [← hstarted.path_eq]
    exact openResult_eq_ok hopened
  · rw [hready.outcome_run, answer, hsame, hparts.sectionAnswer_eq hfs, hformed.path_eq,
      hformed.offset_eq, hnaming]

theorem addressable_withImage : withImage.Addressable := by
  intro number
  match number with
  | 0 => decide +kernel
  | 1 => decide +kernel
  | n + 2 => simp [FileSystem.bytesOf, withImage]

/-- The icon of the image, not the one of the container itself. -/
theorem readSection_of_loaded_image :
    let s := ((Session.begin ⟨"game.cxi"⟩ 0 .standard).run withImage .load).2
    withImage.Addressable ∧ s.container.stage = .loaded ∧
      (s.run withImage (.readSection "icon")).1 = .ok (.bytes (utf8 "IMAG").toArray) := by
  have hloaded : ((Session.begin ⟨"game.cxi"⟩ 0 .standard).run withImage .load).2.container.stage =
      .loaded := loaded_of_requirements (by decide +kernel)
  have hread := readSection_of_loaded ⟨"game.cxi"⟩ 0 .standard [] withImage .load [] "icon"
    addressable_withImage nofun
  rw [runAll_nil, List.map_nil] at hread
  refine ⟨addressable_withImage, hloaded, ?_⟩
  obtain ⟨file, -, hfile | ⟨-, hfile⟩, houtcome⟩ := hread hloaded nofun
  · cases hfile
  · have hopen : (withImage.openPath ⟨"game.cxi"⟩).toOption = some (.file 0) := by decide +kernel
    rw [hfile] at hopen
    cases hopen
    have hicon : (sectionOutcome withImage ⟨"game.cxi"⟩ .standard (.file 0) 0 "icon").toOption =
        some (utf8 "IMAG").toArray := by decide +kernel
    rw [runAll_nil] at houtcome
    exact houtcome.trans (congrArg (Except.map Answer.bytes) (eq_ok_of_toOption hicon))

end Container
end Cartridge
