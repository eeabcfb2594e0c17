import Cartridge.Proofs.Command.Keeping
import Cartridge.Proofs.Container.Imaging
import Cartridge.Proofs.Storage.Siblings

/-!
# Extracted files next to their container

The files of an extraction can be put next to the container, where they override what they were
extracted from. The container still loads, and everything that is read of it is as before: what was
read for a file once is read from the file from now on, and is not unpacked again.
-/
namespace Cartridge

open Container

/-- A piece of a file, as a list. -/
theorem FileSystem.extract_bytesOf (fs : FileSystem) (number start length : Nat) :
    (fs.bytesOf number).extract start (start + length) =
      (((fs.bytesBehind (.file number)).drop start).take length).toArray := by
  apply Array.toList_inj.mp
  rw [Array.toList_extract, List.extract_eq_take_drop, Nat.add_sub_cancel_left]
  rfl

namespace OverrideSet

variable {fs : FileSystem} {path p : Path} {naming : Naming} {name : String}

/-- A directory with a file in it need not be asked for. -/
theorem mem_sectionFiles (hsuffix : naming.directorySuffix ≠ "")
    (hplain : ∀ entry ∈ naming.files,
      '/' ∉ entry.fileName.toList ∧ entry.fileName ∉ ["", ".", ".."]) :
    (name, p) ∈ sectionFiles fs path naming ↔ fs.isFile p = true ∧ ∃ entry ∈ naming.files,
      entry.name = name ∧ (path.withSuffix naming.directorySuffix).join entry.fileName = p := by
  unfold sectionFiles
  dsimp only
  constructor
  · intro h
    split at h
    case isTrue =>
      obtain ⟨hnamed, hfile⟩ := List.mem_filter.mp h
      obtain ⟨entry, hentry, hpair⟩ := List.mem_map.mp hnamed
      cases hpair
      exact ⟨hfile, entry, hentry, rfl, rfl⟩
    case isFalse => cases h
  · rintro ⟨hfile, entry, hentry, rfl, rfl⟩
    obtain ⟨number, hopen⟩ := FileSystem.isFile_iff.mp hfile
    have hbase : (path.withSuffix naming.directorySuffix).text ≠ "" := by
      simp [Path.withSuffix, hsuffix]
    obtain ⟨hslash, hdots⟩ := hplain entry hentry
    have hname : entry.fileName ≠ "" := by
      intro hempty
      rw [hempty] at hdots
      exact hdots List.mem_cons_self
    have hdirectory := FileSystem.isDirectory_of_join hopen hbase hslash hname
    rw [if_pos hdirectory]
    exact List.mem_filter.mpr ⟨List.mem_map_of_mem hentry, hfile⟩

variable (hunique : (naming.files.map SectionFile.name).Nodup)
  (hsuffix : naming.directorySuffix ≠ "")
  (hplain : ∀ entry ∈ naming.files,
    '/' ∉ entry.fileName.toList ∧ entry.fileName ∉ ["", ".", ".."])
include hunique hsuffix hplain

/-- Where no section has two file names, the file that overrides a section is the one that the
conventions have for it. -/
theorem path_of_section? (h : (resolve fs path naming).section? name = .override p) :
    fs.isFile p = true ∧ ∃ fileName, naming.fileName? name = some fileName ∧
      p = (path.withSuffix naming.directorySuffix).join fileName := by
  obtain ⟨hfile, entry, hentry, rfl, rfl⟩ := (mem_sectionFiles hsuffix hplain).mp
    (mem_of_lookup (section?_eq_override.mp h))
  refine ⟨hfile, entry.fileName, ?_, rfl⟩
  unfold Naming.fileName?
  cases hfind : naming.files.find? fun other => other.name = entry.name with
  | none => exact absurd (decide_eq_true rfl) (List.find?_eq_none.mp hfind entry hentry)
  | some other =>
    have hname : other.name = entry.name := by simpa using List.find?_some hfind
    have hsame := List.inj_on_of_nodup_map hunique (List.mem_of_find?_eq_some hfind) hentry hname
    rw [hsame, Option.map_some]

/-- A section is read from its file if that is there. -/
theorem section?_of_isFile {fileName : String} (hname : naming.fileName? name = some fileName)
    (hfile : fs.isFile ((path.withSuffix naming.directorySuffix).join fileName) = true) :
    (resolve fs path naming).section? name =
      .override ((path.withSuffix naming.directorySuffix).join fileName) := by
  cases hsource : (resolve fs path naming).section? name with
  | override p =>
    obtain ⟨-, other, hother, rfl⟩ := path_of_section? hunique hsuffix hplain hsource
    cases hname.symm.trans hother
    rfl
  | embedded =>
    obtain ⟨entry, hfind, rfl⟩ := Option.map_eq_some_iff.mp hname
    have hentry : entry.name = name := by simpa using List.find?_some hfind
    have hmem := (mem_sectionFiles hsuffix hplain).mpr
      ⟨hfile, entry, List.mem_of_find?_eq_some hfind, hentry, rfl⟩
    cases hlookup : (resolve fs path naming).sections.lookup name with
    | none => simpa using List.lookup_eq_none_iff.mp hlookup _ hmem
    | some found =>
      rw [section?_eq_override.mpr hlookup] at hsource
      cases hsource

end OverrideSet

namespace Container

variable {fs there : FileSystem} {path image : Path} {offset : UInt64} {naming : Naming}
  {file other : Handle} {start : Nat} {name : String}

/-! ## The same bytes in another file -/

theorem storedOutcome_of_bytes (hbytes : there.bytesBehind other = fs.bytesBehind file)
    (himage : ¬UsableImage fs image) (himage' : ¬UsableImage there image) :
    storedOutcome there image other start name = storedOutcome fs image file start name := by
  unfold storedOutcome exefsPlace?
  dsimp only
  rw [if_neg himage, if_neg himage', hbytes]
  by_cases hexefs : wordAt (fs.bytesBehind file) (start + 0x1a4) 4 ≠ 0
  · rw [if_pos hexefs, if_pos hexefs]
    dsimp only
    rw [hbytes]
  · rw [if_neg hexefs, if_neg hexefs]

/-- Without override files a section depends on the bytes of the container only. -/
theorem sectionOutcome_of_bytes (hbytes : there.bytesBehind other = fs.bytesBehind file)
    (himage : ¬UsableImage fs (path.withSuffix naming.imageSuffix))
    (himage' : ¬UsableImage there (path.withSuffix naming.imageSuffix))
    (hsource : (OverrideSet.resolve fs path naming).section? name = .embedded)
    (hsource' : (OverrideSet.resolve there path naming).section? name = .embedded) :
    sectionOutcome there path naming other start name =
      sectionOutcome fs path naming file start name := by
  have hlogo : LogoRegion there (path.withSuffix naming.imageSuffix) other start ↔
      LogoRegion fs (path.withSuffix naming.imageSuffix) file start := by
    simp only [LogoRegion, himage, himage', hbytes]
  unfold sectionOutcome
  dsimp only
  rw [hsource, hsource', hbytes, storedOutcome_of_bytes hbytes himage himage']
  simp only [hlogo]

/-- A logo that is not overridden is what its region holds. -/
theorem sectionOutcome_logo
    (hsource : (OverrideSet.resolve fs path naming).section? logoSection = .embedded)
    (hregion : LogoRegion fs (path.withSuffix naming.imageSuffix) file start)
    (hfits : start + 0x200 * wordAt (fs.bytesBehind file) (start + 0x198) 4 +
      0x200 * wordAt (fs.bytesBehind file) (start + 0x19c) 4 ≤ (fs.bytesBehind file).length) :
    sectionOutcome fs path naming file start logoSection =
      .ok (((fs.bytesBehind file).drop
        (start + 0x200 * wordAt (fs.bytesBehind file) (start + 0x198) 4)).take
          (0x200 * wordAt (fs.bytesBehind file) (start + 0x19c) 4)).toArray := by
  unfold sectionOutcome
  dsimp only
  rw [hsource, if_pos ⟨rfl, hregion⟩, regionAt, if_pos hfits]

/-- A container that is loaded is in a file. -/
theorem exists_own_of_stage
    (hstage : (Session.loading fs path offset naming).container.stage = .loaded) :
    ∃ own, fs.openPath path = .ok (.file own) ∧ own < fs.contents.size := by
  obtain ⟨file, header, hfirst, -⟩ := load_of_stage hstage
  obtain ⟨-, -, hread, -⟩ := headerAt_eq_ok hfirst.header_read
  have hfits := hread.2
  cases file with
  | directory => simp [FileSystem.bytesBehind] at hfits
  | file own => exact ⟨own, hfirst.file_at, number_lt_of_bytes (by omega)⟩

end Container

namespace Command

variable {fs now there : FileSystem} {request : Request} {path output p : Path} {naming : Naming}
  {name suffix : String} {own : Nat} {header : ContainerHeader} {c : Container}

/-! ## What is in the output directory -/

/-- Nothing is in a directory, if it is there at all. -/
def Fresh (fs : FileSystem) (output : Path) : Prop :=
  ∀ rest, rest ≠ [] → fs.handleAt? (fs.placeOf output ++ rest) = none

theorem handleAt?_target (hfresh : Fresh fs request.output)
    (hplain : ∀ name ∈ sectionNames fs request.input request.offset .standard, '/' ∉ name.toList)
    (hp : p ∈ targetsOf fs request .standard) : fs.handleAt? (fs.placeOf p) = none := by
  rcases List.mem_append.mp hp with hsection | hromfs
  · obtain ⟨name, hname, rfl⟩ := List.mem_map.mp hsection
    rw [placeOf_sectionTarget fs request.output (hplain name hname)]
    exact hfresh _ (List.cons_ne_nil _ _)
  · rw [List.mem_singleton.mp hromfs, placeOf_romfsTarget]
    exact hfresh _ (List.cons_ne_nil _ _)

theorem standard_unique : (Naming.standard.files.map SectionFile.name).Nodup := by decide

theorem standard_plain : ∀ entry ∈ Naming.standard.files,
    '/' ∉ entry.fileName.toList ∧ entry.fileName ∉ ["", ".", ".."] := by decide

/-- The names of extracted files have other ends than those of images and RomFSs. -/
theorem getLast?_extractedName (name : String) :
    (extractedName .standard name).toList.getLast? ≠ some 's' := by
  have hknown : ∀ entry ∈ Naming.standard.files, entry.fileName.toList.getLast? ≠ some 's' := by
    decide
  rcases extractedName_cases name with ⟨entry, hentry, -, hfile⟩ | ⟨-, hfile⟩
  · rw [hfile]
    exact hknown entry hentry
  · have hbin : ".bin".toList.getLast? = some 'n' := rfl
    rw [hfile, String.toList_append, List.getLast?_append, hbin, Option.some_or]
    decide

namespace Extracted

variable (h : Extracted fs request .standard own header c now)
include h

/-- What is at a path is there since before, or was written there. -/
theorem created_cases {number : Nat} (hopen : now.openHandle p = .ok (.file number)) :
    fs.handleAt? (fs.placeOf p) = some (.file number) ∨
      (∃ other ∈ sectionNames fs request.input request.offset .standard,
        fs.placeOf (sectionTarget .standard request.output other) = fs.placeOf p) ∨
      (embeddedRomfsAnswer c (.file own)).toOption.isSome = true ∧
        fs.placeOf (romfsTarget request.output) = fs.placeOf p := by
  have hthere := FileSystem.handleAt?_of_openHandle hopen
  rw [FileSystem.placeOf_congr h.wrote.stores.start_eq] at hthere
  rcases h.wrote.stores.created _ _ hthere with hbefore | ⟨q, hq, hplace⟩
  · exact .inl hbefore
  · obtain ⟨write, hwrite, rfl⟩ := List.mem_map.mp hq
    rcases List.mem_append.mp hwrite with hsection | hromfs
    · obtain ⟨other, hother, rfl⟩ := List.mem_map.mp hsection
      exact .inr (.inl ⟨other, hother, hplace⟩)
    · rw [fst_of_mem_romfsWrites hromfs] at hplace
      refine .inr (.inr ⟨?_, hplace⟩)
      unfold romfsWrites at hromfs
      split at hromfs
      case h_1 range hrange =>
        rw [hrange]
        rfl
      case h_2 => cases hromfs

/-- A file of the directory for sections is that of a section. -/
theorem section_of_file (hfresh : Fresh fs request.output)
    (hplain : ∀ name ∈ sectionNames fs request.input request.offset .standard, '/' ∉ name.toList)
    {fileName : String} (hslash : '/' ∉ fileName.toList) (hname : fileName ∉ ["", ".", ".."])
    {bytes : Bytes}
    (hfile : now.wholeFile? ((request.output.join "exefs").join fileName) = some bytes) :
    ∃ other ∈ sectionNames fs request.input request.offset .standard,
      extractedName .standard other = fileName := by
  have hplace : fs.placeOf ((request.output.join "exefs").join fileName) =
      fs.placeOf request.output ++ ["exefs", fileName] := by
    rw [fs.placeOf_join _ hslash hname, fs.placeOf_join _ (by decide) (by decide),
      List.append_assoc]
    rfl
  obtain ⟨number, hopen, -⟩ := FileSystem.wholeFile?_eq_some_iff.mp hfile
  rcases h.created_cases hopen with hbefore | ⟨other, hother, hsame⟩ | ⟨-, hsame⟩
  · rw [hplace, hfresh _ (List.cons_ne_nil _ _)] at hbefore
    cases hbefore
  · rw [hplace, placeOf_sectionTarget fs request.output (hplain other hother)] at hsame
    exact ⟨other, hother, by simpa using hsame⟩
  · rw [hplace, placeOf_romfsTarget] at hsame
    simpa using congrArg List.length hsame

/-- The file of the RomFS holds what the container has as its RomFS. -/
theorem romfs_eq (hfresh : Fresh fs request.output)
    (hplain : ∀ name ∈ sectionNames fs request.input request.offset .standard, '/' ∉ name.toList) :
    now.wholeFile? (romfsTarget request.output) =
      (embeddedRomfsAnswer c (.file own)).toOption.map fun range =>
        (fs.bytesOf own).extract range.offset.toNat (range.offset.toNat + range.size.toNat) := by
  cases hromfs : embeddedRomfsAnswer c (.file own) with
  | ok range =>
    have hwrites : romfsWrites fs c own request.output = [(romfsTarget request.output,
        (fs.bytesOf own).extract range.offset.toNat (range.offset.toNat + range.size.toNat))] := by
      rw [romfsWrites, hromfs]
    have hmem := List.mem_append_right
      (sectionWrites fs c own .standard request.output
        (sectionNames fs request.input request.offset .standard))
      (hwrites ▸ List.mem_singleton_self _)
    obtain ⟨other, hother, hplace, hholds⟩ := h.wrote.last _ hmem
    rcases List.mem_append.mp hother with hsection | hlast
    · obtain ⟨name, hname, rfl⟩ := List.mem_map.mp hsection
      exact absurd hplace (placeOf_sectionTarget_ne_romfs (hplain name hname))
    · rw [hwrites] at hlast
      rw [List.mem_singleton.mp hlast] at hholds
      exact hholds
  | error e =>
    cases hfile : now.wholeFile? (romfsTarget request.output) with
    | none => rfl
    | some bytes =>
      obtain ⟨number, hopen, -⟩ := FileSystem.wholeFile?_eq_some_iff.mp hfile
      rcases h.created_cases hopen with hbefore | ⟨other, hother, hsame⟩ | ⟨hsome, -⟩
      · rw [placeOf_romfsTarget, hfresh _ (List.cons_ne_nil _ _)] at hbefore
        cases hbefore
      · exact absurd hsame (placeOf_sectionTarget_ne_romfs (hplain other hother))
      · rw [hromfs] at hsome
        cases hsome

/-! ## What is next to the container -/

/-- The container itself is not written to. -/
theorem wholeFile?_own : now.wholeFile? request.input = some (fs.bytesOf own) := by
  apply FileSystem.wholeFile?_eq_some_iff.mpr
  have hopen := mapError_eq_ok.mp h.plain.file_at
  exact ⟨own, h.wrote.stores.openHandle_of_ok hopen, h.wrote.own_eq⟩

/-- No file that is extracted is next to the container under the name of an image or a RomFS. -/
theorem wholeFile?_beside (hmissing : fs.isFile (request.input.withSuffix suffix) = false)
    (hplain : ∀ name ∈ sectionNames fs request.input request.offset .standard, '/' ∉ name.toList)
    (hsuffix : suffix ∈ [Naming.standard.imageSuffix, Naming.standard.romfsSuffix]) :
    now.wholeFile? (request.input.withSuffix suffix) = none := by
  have hshape : ∀ suffix ∈ [Naming.standard.imageSuffix, Naming.standard.romfsSuffix],
      '/' ∉ suffix.toList ∧ 2 < suffix.length ∧ suffix.toList.getLast? = some 's' := by decide
  obtain ⟨hslash, hlength, hlast⟩ := hshape suffix hsuffix
  have hopen := mapError_eq_ok.mp h.plain.file_at
  obtain ⟨_, above, start, -, hbeside⟩ := FileSystem.exists_beside hopen
  obtain ⟨-, -, hplace, -⟩ := hbeside suffix hslash hlength
  have hends : (start ++ suffix).toList.getLast? = some 's' := by
    rw [String.toList_append, List.getLast?_append, hlast]
    rfl
  cases hfile : now.wholeFile? (request.input.withSuffix suffix) with
  | none => rfl
  | some bytes =>
    obtain ⟨number, hnow, -⟩ := FileSystem.wholeFile?_eq_some_iff.mp hfile
    rcases h.created_cases hnow with hbefore | ⟨other, hother, hsame⟩ | ⟨-, hsame⟩
    · have hthere := h.wrote.stores.openHandle_beside hopen hslash hlength hnow hbefore
      rw [FileSystem.isFile_iff.mpr ⟨number, hthere⟩] at hmissing
      cases hmissing
    · rw [hplace, placeOf_sectionTarget fs request.output (hplain other hother)] at hsame
      have hname : extractedName .standard other = start ++ suffix := by
        simpa using congrArg List.getLast? hsame
      exact absurd (hname ▸ hends) (getLast?_extractedName other)
    · rw [hplace, placeOf_romfsTarget] at hsame
      have hname : "romfs.bin" = start ++ suffix := by
        simpa using congrArg List.getLast? hsame
      rw [← hname] at hends
      exact absurd hends (by decide)

end Extracted

/-! ## The files are installed -/

/-- The files of an extraction are put next to a container. The directory for sections holds those
of the sections, and the RomFS is at its path if there is one; nothing else is done to what the
container looks for. -/
structure Installed (naming : Naming) (path output : Path) (now there : FileSystem) : Prop where
  sections : ∀ fileName : String, '/' ∉ fileName.toList → fileName ∉ ["", ".", ".."] →
    there.wholeFile? ((path.withSuffix naming.directorySuffix).join fileName) =
      now.wholeFile? ((output.join "exefs").join fileName)
  romfs : there.wholeFile? (path.withSuffix naming.romfsSuffix) =
    (now.wholeFile? (romfsTarget output)).or (now.wholeFile? (path.withSuffix naming.romfsSuffix))
  image : there.wholeFile? (path.withSuffix naming.imageSuffix) =
    now.wholeFile? (path.withSuffix naming.imageSuffix)
  own : there.wholeFile? path = now.wholeFile? path

namespace Installed

variable (hinstalled : Installed .standard request.input request.output now there)
  (h : Extracted fs request .standard own header
    (Session.loading fs request.input request.offset .standard).container now)
include hinstalled h

/-- The file of the container holds the same bytes. -/
theorem opens : ∃ other, there.openPath request.input = .ok (.file other) ∧
    there.bytesBehind (.file other) = fs.bytesBehind (.file own) := by
  have hwhole := hinstalled.own
  rw [h.wholeFile?_own] at hwhole
  obtain ⟨other, hopen, hbytes⟩ := FileSystem.wholeFile?_eq_some_iff.mp hwhole
  refine ⟨other, mapError_eq_ok.mpr hopen, ?_⟩
  rw [FileSystem.bytesBehind, FileSystem.bytesBehind, hbytes]

theorem stage_eq :
    (Session.loading there request.input request.offset .standard).container.stage = .loaded := by
  obtain ⟨other, hopen, hbytes⟩ := hinstalled.opens h
  obtain ⟨hheaders, htable⟩ := (loaded_iff h.plain.file_at).mp h.plain.stage_eq
  apply (loaded_iff hopen).mpr
  rw [hbytes]
  exact ⟨hheaders, .inr (htable.resolve_left h.plain.not_usable)⟩

variable (hplain : ∀ name ∈ sectionNames fs request.input request.offset .standard,
  '/' ∉ name.toList)
include hplain

theorem not_usable :
    ¬UsableImage there (request.input.withSuffix Naming.standard.imageSuffix) := by
  have hnone := h.wholeFile?_beside h.plain.isFile_image hplain (by decide)
  apply not_usable_of_none
  rw [Source.ofFile, FileSystem.isFile_eq_isSome, hinstalled.image, hnone]
  rfl

/-- The RomFS is there as a file exactly if the container has one of its own. -/
theorem romfs_file : there.wholeFile? (request.input.withSuffix Naming.standard.romfsSuffix) =
    now.wholeFile? (romfsTarget request.output) := by
  have hnone := h.wholeFile?_beside h.plain.isFile_romfs hplain (by decide)
  rw [hinstalled.romfs, hnone, Option.or_none]

section

variable (hcode : "code" ∉ sectionNames fs request.input request.offset .standard)
include hcode

/-- The file of a section holds the bytes that the section was read as. -/
theorem keeps (hname : name ∈ sectionNames fs request.input request.offset .standard) :
    ∃ bytes, ((Session.loading fs request.input request.offset .standard).run fs
        (.readSection name)).1 = .ok (.bytes bytes) ∧
      there.wholeFile? ((request.input.withSuffix Naming.standard.directorySuffix).join
        (extractedName .standard name)) = some bytes := by
  obtain ⟨bytes, hread, hholds⟩ := h.keeps hplain hcode hname
  obtain ⟨hslash, hplainName⟩ := extractedName_plain (hplain name hname)
  refine ⟨bytes, hread, ?_⟩
  rw [hinstalled.sections _ hslash hplainName]
  exact hholds

/-- A section that has a file there was read for it. -/
theorem mem_of_isFile (hfresh : Fresh fs request.output) {fileName : String}
    (hname : Naming.standard.fileName? name = some fileName)
    (hfile : there.isFile
      ((request.input.withSuffix Naming.standard.directorySuffix).join fileName) = true) :
    name ∈ sectionNames fs request.input request.offset .standard := by
  have hextracted : extractedName .standard name = fileName := by
    rw [extractedName, hname, Option.getD_some]
  obtain ⟨entry, hfind, rfl⟩ := Option.map_eq_some_iff.mp hname
  obtain ⟨hslash, hdots⟩ := standard_plain entry (List.mem_of_find?_eq_some hfind)
  have hheld := FileSystem.wholeFile?_of_isFile hfile
  rw [hinstalled.sections _ hslash hdots] at hheld
  obtain ⟨other, hother, hsame⟩ := h.section_of_file hfresh hplain hslash hdots hheld
  rcases extractedName_eq_iff.mp (hsame.trans hextracted.symm) with rfl | ⟨-, rfl⟩ | ⟨rfl, -⟩
  · exact hother
  · cases hname
  · exact absurd hother hcode

/-- A section that was read for a file is now read from that file. -/
theorem section?_eq (hname : name ∈ sectionNames fs request.input request.offset .standard)
    {fileName : String} (hfile : Naming.standard.fileName? name = some fileName) :
    (Session.loading there request.input request.offset .standard).container.overrides.section?
        name =
      .override ((request.input.withSuffix Naming.standard.directorySuffix).join fileName) := by
  obtain ⟨file, header', hlast, -⟩ := load_of_stage (hinstalled.stage_eq h)
  obtain ⟨bytes, -, hholds⟩ := hinstalled.keeps h hplain hcode hname
  rw [extractedName, hfile, Option.getD_some] at hholds
  rw [hlast.recorded, hlast.path_eq, hlast.naming_eq]
  apply OverrideSet.section?_of_isFile standard_unique (by decide) standard_plain hfile
  rw [FileSystem.isFile_eq_isSome, hholds]
  rfl

/-- Every section is read as it was. -/
theorem readSection_eq (hfs : fs.Addressable) (hthere : there.Addressable)
    (hfresh : Fresh fs request.output) (name : String) :
    ((Session.loading there request.input request.offset .standard).run there
        (.readSection name)).1 =
      ((Session.loading fs request.input request.offset .standard).run fs
        (.readSection name)).1 := by
  obtain ⟨other, hopen, hbytes⟩ := hinstalled.opens h
  obtain ⟨file, header', hlast, -⟩ := load_of_stage (hinstalled.stage_eq h)
  obtain rfl : file = .file other := Except.ok.inj (hlast.file_at.symm.trans hopen)
  rw [hlast.readSection_eq hthere]
  cases hsource : (OverrideSet.resolve there request.input .standard).section? name with
  | embedded =>
    have hnone : (OverrideSet.resolve fs request.input .standard).section? name = .embedded := by
      rw [h.plain.alone]
      rfl
    rw [h.plain.readSection_eq hfs, sectionOutcome_of_bytes hbytes h.plain.not_usable
      (hinstalled.not_usable h hplain) hnone hsource]
  | override p =>
    obtain ⟨hfile, fileName, hname, rfl⟩ :=
      OverrideSet.path_of_section? standard_unique (by decide) standard_plain hsource
    have hmem := hinstalled.mem_of_isFile h hplain hcode hfresh hname hfile
    obtain ⟨bytes, hread, hholds⟩ := hinstalled.keeps h hplain hcode hmem
    have hheld := FileSystem.wholeFile?_of_isFile hfile
    rw [extractedName, hname, Option.getD_some, hheld] at hholds
    rw [hread, sectionOutcome, hsource]
    exact congrArg (fun held => Except.ok (Answer.bytes held)) (Option.some.inj hholds)

end

/-- A RomFS is located where it was not in a file of its own, and is the same. -/
theorem locateRomfs_matches (hfs : fs.Addressable) (hfresh : Fresh fs request.output) :
    Matches (fun a a' => ∃ r r', a = .range r ∧ a' = .range r' ∧ r.Alike fs there r') Eq
      ((Session.loading fs request.input request.offset .standard).run fs .locateRomfs).1
      ((Session.loading there request.input request.offset .standard).run there
        .locateRomfs).1 := by
  obtain ⟨other, hopen, hbytes⟩ := hinstalled.opens h
  obtain ⟨file, header', hlast, -⟩ := load_of_stage (hinstalled.stage_eq h)
  obtain rfl : file = .file other := Except.ok.inj (hlast.file_at.symm.trans hopen)
  rw [h.plain.ready.outcome_run, hlast.ready.outcome_run, answer, answer, h.plain.romfsAnswer_eq]
  have hromfs := hinstalled.romfs_file h hplain
  rw [h.romfs_eq hfresh hplain] at hromfs
  cases hrange : embeddedRomfsAnswer
      (Session.loading fs request.input request.offset .standard).container (.file own) with
  | ok range =>
    rw [hrange] at hromfs
    obtain ⟨number, hnumber, hholds⟩ := FileSystem.wholeFile?_eq_some_iff.mp hromfs
    obtain ⟨hfile, -, -⟩ := embeddedRomfs_bounds h.plain hrange
    have hfits := h.fits range hrange
    have hown := hfs own
    have hsize : there.sizeOf (.file number) = range.size := by
      rw [FileSystem.sizeOf, hholds, Array.size_extract, Nat.min_eq_left hfits,
        Nat.add_sub_cancel_left, UInt64.ofNat_toNat]
    rw [hlast.romfsAnswer_of_file hnumber]
    exact .ok ⟨range, _, rfl, rfl,
      FileRange.alike_of_bytes hfile (by omega) hfits rfl rfl hsize hholds⟩
  | error e =>
    rw [hrange] at hromfs
    obtain ⟨rfl, hnone⟩ := h.plain.embeddedRomfsAnswer_eq_error.mp hrange
    have hmissing :
        there.isFile (request.input.withSuffix Naming.standard.romfsSuffix) = false := by
      rw [FileSystem.isFile_eq_isSome, hromfs]
      rfl
    rw [hlast.romfsAnswer_of_absent hmissing (by rw [hbytes, hnone])]
    exact .error rfl

end Installed

/-- An extraction into an empty directory, whose files are then put next to the container, changes
nothing that can be read of it: it loads, the sections that have file names are read from their
files as they were read before, all others are what they were, and so is the RomFS. -/
theorem outcomes_of_installed (fs there : FileSystem) {arguments : List String} {request : Request}
    (h : readArguments arguments = .ok request) (hverb : request.verb = .extract)
    (hnaming : request.path? .naming = none)
    (halone : OverrideSet.resolve fs request.input .standard = .empty)
    (hnames : ∀ name ∈ sectionNames fs request.input request.offset .standard,
      '/' ∉ name.toList ∧ name ≠ "code")
    (hfresh : Fresh fs request.output) (hexit : (run fs arguments).exitCode = 0)
    (hinstalled : Installed .standard request.input request.output
      (run fs arguments).world.fileSystem there)
    (hfs : fs.Addressable) (hthere : there.Addressable) :
    let before := Session.loading fs request.input request.offset .standard
    let after := Session.loading there request.input request.offset .standard
    let directory := request.input.withSuffix Naming.standard.directorySuffix
    after.container.stage = .loaded ∧
    (∀ name ∈ sectionNames fs request.input request.offset .standard, ∀ fileName,
      Naming.standard.fileName? name = some fileName →
      after.container.overrides.section? name = .override (directory.join fileName)) ∧
    (∀ name, (after.run there (.readSection name)).1 = (before.run fs (.readSection name)).1) ∧
    Matches (fun a a' => ∃ r r', a = .range r ∧ a' = .range r' ∧ r.Alike fs there r') Eq
      (before.run fs .locateRomfs).1 (after.run there .locateRomfs).1 := by
  have hplain : ∀ name ∈ sectionNames fs request.input request.offset .standard,
      '/' ∉ name.toList := fun name hname => (hnames name hname).1
  have hcode : "code" ∉ sectionNames fs request.input request.offset .standard :=
    fun hname => (hnames _ hname).2 rfl
  obtain ⟨own, hopen, hown⟩ :=
    exists_own_of_stage (stage_of_run (run_extract_of_exitCode h hverb hnaming hexit))
  have hsep := FileSystem.separate_of_new hown
    fun p hp => handleAt?_target hfresh hplain hp
  obtain ⟨header, hextracted⟩ :=
    extracted_of_exitCode h hverb hnaming hexit hopen halone hsep
  exact ⟨hinstalled.stage_eq hextracted,
    fun _ hname _ hfile => hinstalled.section?_eq hextracted hplain hcode hname hfile,
    hinstalled.readSection_eq hextracted hplain hcode hfs hthere hfresh,
    hinstalled.locateRomfs_matches hextracted hplain hfs hfresh⟩

/-- A container with an icon, a logo in a region of its own, and a RomFS. -/
def withRegions : FileSystem where
  contents := #[(List.replicate 0x100 0 ++ containerMagic ++ List.replicate 0x94 0 ++ octets 4 3 ++
    octets 4 1 ++ octets 4 1 ++ octets 4 2 ++ List.replicate 8 0 ++ octets 4 4 ++ octets 4 1 ++
    List.replicate 0x48 0 ++ utf8 "icon" ++ List.replicate 8 0 ++ octets 4 4 ++ utf8 "logo" ++
    List.replicate 4 0 ++ octets 4 4 ++ octets 4 4 ++ List.replicate 0x1e0 0 ++ utf8 "ICONSLOT" ++
    List.replicate 0x1f8 0 ++ utf8 "LOGO" ++ List.replicate 0x1fc 0 ++ utf8 "ROMF" ++
    List.replicate 0x1fc 0).toArray]
  entries := [(["game.cxi"], .file 0)]
  workingDirectory := []

/-- The unit of its bytes that starts at a place. -/
def unitAt (place : Nat) : Bytes :=
  (((withRegions.bytesBehind (.file 0)).drop place).take 0x200).toArray

/-- The same container, with the files of its extraction next to it. -/
def withRegionFiles : FileSystem where
  contents := #[withRegions.bytesOf 0, (utf8 "ICON").toArray, unitAt 0x600, unitAt 0x800]
  entries := [(["game.cxi"], .file 0), (["game.cxi.exefsdir"], .directory),
    (["game.cxi.exefsdir", "icon.icn"], .file 1), (["game.cxi.exefsdir", "logo.bcma.lz"], .file 2),
    (["game.cxi.romfs"], .file 3)]
  workingDirectory := []

theorem sectionNames_withRegions :
    sectionNames withRegions extractGame.input extractGame.offset .standard =
      ["icon", "logo"] := by decide +kernel

theorem addressable_withRegions : withRegions.Addressable :=
  FileSystem.addressable_of_contents (by decide +kernel)

theorem plain_withRegions :
    ∃ header, Plain withRegions extractGame.input extractGame.offset .standard 0 header
      (Session.loading withRegions extractGame.input extractGame.offset .standard).container := by
  have hrequired : ∀ requirement ∈ requirements withRegions extractGame.input extractGame.offset
      .standard, requirement.holds := by decide +kernel
  have hopen : (withRegions.openPath extractGame.input).toOption = some (.file 0) := by
    decide +kernel
  have halone : OverrideSet.resolve withRegions extractGame.input .standard = .empty := by
    decide +kernel
  exact plain_of_stage (loading_of_requirements hrequired) (eq_ok_of_toOption hopen) halone

/-- The icon is read from its slot and the logo from its region. -/
theorem sectionAnswer_withRegions :
    sectionAnswer withRegions
        (Session.loading withRegions extractGame.input extractGame.offset .standard).container
        (.file 0) "icon" = .ok (utf8 "ICON").toArray ∧
      sectionAnswer withRegions
        (Session.loading withRegions extractGame.input extractGame.offset .standard).container
        (.file 0) "logo" = .ok (unitAt 0x600) := by
  obtain ⟨header, h⟩ := plain_withRegions
  have hread (name : String) := h.sectionAnswer_eq addressable_withRegions name
  rw [h.path_eq, h.naming_eq, h.offset_eq] at hread
  have hicon : (sectionOutcome withRegions extractGame.input .standard (.file 0)
      extractGame.offset.toNat "icon").toOption = some (utf8 "ICON").toArray := by decide +kernel
  have hregion : LogoRegion withRegions (extractGame.input.withSuffix Naming.standard.imageSuffix)
      (.file 0) 0 := by decide +kernel
  have hplace : wordAt (withRegions.bytesBehind (.file 0)) (0 + 0x198) 4 = 3 ∧
      wordAt (withRegions.bytesBehind (.file 0)) (0 + 0x19c) 4 = 1 ∧
      0 + 0x200 * 3 + 0x200 * 1 ≤ (withRegions.bytesBehind (.file 0)).length := by decide +kernel
  obtain ⟨hunit, hunits, hfits⟩ := hplace
  have hembedded : (OverrideSet.resolve withRegions extractGame.input .standard).section?
      logoSection = .embedded := by
    rw [h.alone]
    rfl
  have hlogo := sectionOutcome_logo hembedded hregion (by rw [hunit, hunits]; exact hfits)
  rw [hunit, hunits] at hlogo
  exact ⟨(hread "icon").trans (eq_ok_of_toOption hicon), (hread "logo").trans hlogo⟩

theorem romfs_withRegions : ∃ range, embeddedRomfsAnswer
      (Session.loading withRegions extractGame.input extractGame.offset .standard).container
      (.file 0) = .ok range ∧
    range.file = .file 0 ∧ range.offset.toNat = 0x800 ∧ range.size.toNat = 0x200 := by
  obtain ⟨header, h⟩ := plain_withRegions
  have hplace : wordAt (withRegions.bytesBehind (.file 0)) (extractGame.offset.toNat + 0x1b0) 4 =
      4 ∧ wordAt (withRegions.bytesBehind (.file 0)) (extractGame.offset.toNat + 0x1b4) 4 =
      1 := by decide +kernel
  have hdeclared := embeddedRomfsAnswer_isSome h.toLoadedOn
  rw [h.hasRomfs_iff.mpr (by rw [hplace.2]; decide)] at hdeclared
  obtain ⟨range, hrange⟩ := Option.isSome_iff_exists.mp hdeclared
  obtain ⟨hfile, hoffset, hsize, -, -⟩ := h.embeddedRomfsAnswer_eq_ok (eq_ok_of_toOption hrange)
  rw [hplace.1] at hoffset
  rw [hplace.2] at hsize
  exact ⟨range, eq_ok_of_toOption hrange, hfile, hoffset, hsize⟩

theorem fresh_withRegions : Fresh withRegions extractGame.output := by
  intro rest hrest
  have hplace : withRegions.placeOf extractGame.output = ["out", "sub"] := by decide +kernel
  rw [hplace]
  rfl

theorem separate_withRegions :
    withRegions.Separate 0 (targetsOf withRegions extractGame .standard) :=
  FileSystem.separate_of_new (by decide) fun _ hp =>
    handleAt?_target fresh_withRegions (by rw [sectionNames_withRegions]; decide) hp

theorem exitCode_withRegions :
    (run withRegions ["extract", "-i", "game.cxi", "-o", "out/sub"]).exitCode = 0 := by
  obtain ⟨header, h⟩ := plain_withRegions
  obtain ⟨hicon, hlogo⟩ := sectionAnswer_withRegions
  obtain ⟨range, hrange, hfile, hoffset, hsize⟩ := romfs_withRegions
  have hreads : ∀ name ∈ sectionNames withRegions extractGame.input extractGame.offset .standard,
      ∃ bytes, sectionAnswer withRegions
        (Session.loading withRegions extractGame.input extractGame.offset .standard).container
        (.file 0) name = .ok bytes := by
    rw [sectionNames_withRegions]
    intro name hname
    rcases List.mem_pair.mp hname with rfl | rfl
    · exact ⟨_, hicon⟩
    · exact ⟨_, hlogo⟩
  have hmakes : ((withRegions.makeDirectories extractGame.output).toOption.bind fun made =>
      (FileSystem.writeEach (extractGame.output.join "exefs")
        [(sectionTarget .standard extractGame.output "icon", (utf8 "ICON").toArray),
          (sectionTarget .standard extractGame.output "logo", unitAt 0x600)] made).bind
        fun last => (last.create (romfsTarget extractGame.output)).toOption).isSome := by
    decide +kernel
  obtain ⟨⟨number, created⟩, hmakes⟩ := Option.isSome_iff_exists.mp hmakes
  obtain ⟨made, hmade, hrest⟩ := Option.bind_eq_some_iff.mp hmakes
  obtain ⟨last, hall, hcreate⟩ := Option.bind_eq_some_iff.mp hrest
  have hwrites : FileSystem.writeEach (extractGame.output.join "exefs")
      (sectionWrites withRegions
        (Session.loading withRegions extractGame.input extractGame.offset .standard).container 0
        .standard extractGame.output
        (sectionNames withRegions extractGame.input extractGame.offset .standard)) made =
      some last := by
    rw [sectionNames_withRegions, sectionWrites, List.map_cons, List.map_cons, List.map_nil,
      contentsOf_of_ok hicon, contentsOf_of_ok hlogo]
    exact hall
  have hlength : 0x800 + 0x200 ≤ (withRegions.bytesOf 0).size := by decide +kernel
  have hrun := run_extract_of_fits rfl h separate_withRegions hreads hrange (by omega) (by omega)
    (eq_ok_of_toOption hmade) hwrites (eq_ok_of_toOption hcreate) #[]
  exact (run_extract rfl rfl readArguments_extractGame _).2.mpr (congrArg Prod.fst hrun)

theorem extracted_withRegions : ∃ header, Extracted withRegions extractGame .standard 0 header
    (Session.loading withRegions extractGame.input extractGame.offset .standard).container
    (run withRegions ["extract", "-i", "game.cxi", "-o", "out/sub"]).world.fileSystem := by
  obtain ⟨header, h⟩ := plain_withRegions
  exact extracted_of_exitCode readArguments_extractGame rfl rfl exitCode_withRegions h.file_at
    h.alone separate_withRegions

/-- What the extraction has written. -/
theorem wholeFile?_extracted {now : FileSystem} {header : ContainerHeader}
    (h : Extracted withRegions extractGame .standard 0 header
      (Session.loading withRegions extractGame.input extractGame.offset .standard).container now) :
    now.wholeFile? (sectionTarget .standard extractGame.output "icon") =
        some (utf8 "ICON").toArray ∧
      now.wholeFile? (sectionTarget .standard extractGame.output "logo") = some (unitAt 0x600) ∧
      now.wholeFile? (romfsTarget extractGame.output) = some (unitAt 0x800) := by
  have hplain : ∀ name ∈ sectionNames withRegions extractGame.input extractGame.offset .standard,
      '/' ∉ name.toList := by
    rw [sectionNames_withRegions]
    decide
  have hkept {name : String} {bytes : Bytes} (hname : name ∈ ["icon", "logo"])
      (hread : sectionAnswer withRegions
        (Session.loading withRegions extractGame.input extractGame.offset .standard).container
        (.file 0) name = .ok bytes) :
      now.wholeFile? (sectionTarget .standard extractGame.output name) = some bytes := by
    rw [← sectionNames_withRegions] at hname
    obtain ⟨held, hheld, hholds⟩ := h.keeps hplain (by rw [sectionNames_withRegions]; decide) hname
    rw [h.read_eq, hread] at hheld
    cases hheld
    exact hholds
  obtain ⟨hicon, hlogo⟩ := sectionAnswer_withRegions
  obtain ⟨range, hrange, -, hoffset, hsize⟩ := romfs_withRegions
  refine ⟨hkept (by decide) hicon, hkept (by decide) hlogo, ?_⟩
  rw [h.romfs_eq fresh_withRegions hplain, hrange]
  apply congrArg some
  dsimp only
  rw [hoffset, hsize]
  exact FileSystem.extract_bytesOf withRegions 0 0x800 0x200

/-- The directory for sections has the files of the icon and of the logo and no others. -/
theorem wholeFile?_withRegionFiles {fileName : String} (hslash : '/' ∉ fileName.toList)
    (hdots : fileName ∉ ["", ".", ".."]) (hicon : fileName ≠ "icon.icn")
    (hlogo : fileName ≠ "logo.bcma.lz") :
    withRegionFiles.wholeFile? ((extractGame.input.withSuffix
      Naming.standard.directorySuffix).join fileName) = none := by
  have hbase : withRegionFiles.placeOf (extractGame.input.withSuffix
      Naming.standard.directorySuffix) = ["game.cxi.exefsdir"] := by decide +kernel
  cases hfile : withRegionFiles.wholeFile? ((extractGame.input.withSuffix
      Naming.standard.directorySuffix).join fileName) with
  | none => rfl
  | some bytes =>
    obtain ⟨number, hopen, -⟩ := FileSystem.wholeFile?_eq_some_iff.mp hfile
    have hthere := FileSystem.handleAt?_of_openHandle hopen
    rw [FileSystem.placeOf_join _ _ hslash hdots, hbase] at hthere
    simp [FileSystem.handleAt?, withRegionFiles, List.lookup_cons, beq_eq_false_iff_ne.mpr hicon,
      beq_eq_false_iff_ne.mpr hlogo] at hthere

/-- The files of the extraction of the container are those next to the other one. -/
theorem installed_withRegionFiles {now : FileSystem} {header : ContainerHeader}
    (h : Extracted withRegions extractGame .standard 0 header
      (Session.loading withRegions extractGame.input extractGame.offset .standard).container now) :
    Installed .standard extractGame.input extractGame.output now withRegionFiles := by
  have hplain : ∀ name ∈ sectionNames withRegions extractGame.input extractGame.offset .standard,
      '/' ∉ name.toList := by
    rw [sectionNames_withRegions]
    decide
  have hholds : withRegionFiles.bytesOf 1 = (utf8 "ICON").toArray ∧
      withRegionFiles.bytesOf 2 = unitAt 0x600 ∧ withRegionFiles.bytesOf 3 = unitAt 0x800 :=
    ⟨rfl, rfl, rfl⟩
  have hfile {p : Path} (number : Nat)
      (hopen : (withRegionFiles.openHandle p).toOption = some (.file number)) :
      withRegionFiles.wholeFile? p = some (withRegionFiles.bytesOf number) :=
    FileSystem.wholeFile?_eq_some_iff.mpr ⟨number, eq_ok_of_toOption hopen, rfl⟩
  obtain ⟨hicon, hlogo, hromfs⟩ := wholeFile?_extracted h
  constructor
  · intro fileName hslash hdots
    by_cases hfirst : fileName = "icon.icn"
    · subst hfirst
      rw [hfile 1 (by decide +kernel), hholds.1]
      exact hicon.symm
    by_cases hsecond : fileName = "logo.bcma.lz"
    · subst hsecond
      rw [hfile 2 (by decide +kernel), hholds.2.1]
      exact hlogo.symm
    rw [wholeFile?_withRegionFiles hslash hdots hfirst hsecond]
    cases hwritten : now.wholeFile? ((extractGame.output.join "exefs").join fileName) with
    | none => rfl
    | some bytes =>
      obtain ⟨other, hother, hsame⟩ :=
        h.section_of_file fresh_withRegions hplain hslash hdots hwritten
      rw [sectionNames_withRegions] at hother
      rcases List.mem_pair.mp hother with rfl | rfl
      · exact absurd hsame.symm hfirst
      · exact absurd hsame.symm hsecond
  · rw [hromfs, Option.some_or, hfile 3 (by decide +kernel), hholds.2.2]
  · rw [h.wholeFile?_beside h.plain.isFile_image hplain (by decide)]
    decide +kernel
  · rw [h.wholeFile?_own]
    exact hfile 0 (by decide +kernel)

/-- The icon, the logo and the RomFS are read from their files as they were from the container. -/
theorem outcomes_of_installed_regions :
    let answer := run withRegions ["extract", "-i", "game.cxi", "-o", "out/sub"]
    let before := Session.loading withRegions extractGame.input extractGame.offset .standard
    let after := Session.loading withRegionFiles extractGame.input extractGame.offset .standard
    answer.exitCode = 0 ∧ Fresh withRegions extractGame.output ∧
    Installed .standard extractGame.input extractGame.output answer.world.fileSystem
      withRegionFiles ∧
    after.container.stage = .loaded ∧
    (after.run withRegionFiles (.readSection "icon")).1 = .ok (.bytes (utf8 "ICON").toArray) ∧
    (after.run withRegionFiles (.readSection "logo")).1 = .ok (.bytes (unitAt 0x600)) ∧
    Matches (fun a a' => ∃ r r', a = .range r ∧ a' = .range r' ∧
        r.Alike withRegions withRegionFiles r') Eq
      (before.run withRegions .locateRomfs).1 (after.run withRegionFiles .locateRomfs).1 := by
  dsimp only
  obtain ⟨header, h⟩ := extracted_withRegions
  have hinstalled := installed_withRegionFiles h
  have hnames : ∀ name ∈ sectionNames withRegions extractGame.input extractGame.offset .standard,
      '/' ∉ name.toList ∧ name ≠ "code" := by
    rw [sectionNames_withRegions]
    decide
  have hthere : withRegionFiles.Addressable :=
    FileSystem.addressable_of_contents (by decide +kernel)
  obtain ⟨hstage, -, hread, hromfs⟩ := outcomes_of_installed withRegions withRegionFiles
    readArguments_extractGame rfl rfl h.plain.alone hnames fresh_withRegions exitCode_withRegions
    hinstalled addressable_withRegions hthere
  obtain ⟨hicon, hlogo⟩ := sectionAnswer_withRegions
  refine ⟨exitCode_withRegions, fresh_withRegions, hinstalled, hstage, ?_, ?_, hromfs⟩
  · rw [hread, h.read_eq, hicon]
    rfl
  · rw [hread, h.read_eq, hlogo]
    rfl

end Command

end Cartridge
