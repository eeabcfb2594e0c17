import Cartridge.Proofs.Container.Sections

/-!
# Containers after their first load

A first load either fails or leaves the container with what its files hold. What they say of its
RomFS and of the names of its sections can be read from their bytes.
-/
namespace Cartridge

open Procedure

/-- A container after its first load. -/
def Session.loading (fs : FileSystem) (path : Path) (offset : UInt64) (naming : Naming) : Session :=
  ((Session.begin path offset naming).run fs .load).2

theorem Session.runAll_load (fs : FileSystem) (path : Path) (offset : UInt64) (naming : Naming) :
    (Session.begin path offset naming).runAll [(fs, .load)] =
      Session.loading fs path offset naming := rfl

namespace ContainerHeader

variable {b : List UInt8} {start : Nat} {block : Block byteSize}

section

variable (h : block.toList = (b.drop start).take byteSize)
include h

theorem romfs_byteOffset_ofBlock :
    (ofBlock block).romfs.byteOffset.toNat = 0x200 * wordAt b (start + 0x1b0) 4 := by
  rw [HashedRegion.byteOffset, toNat_unitBytes]
  simp only [ofBlock, HashedRegion.ofBlock, Block.toNat_word32, Block.toList_cut, h]
  rw [wordAt_window _ _ _ (by decide), wordAt_window _ _ _ (by decide)]

theorem romfs_size_ofBlock : (ofBlock block).romfs.size.toNat = wordAt b (start + 0x1b4) 4 := by
  simp only [ofBlock, HashedRegion.ofBlock, Block.toNat_word32, Block.toList_cut, h]
  rw [wordAt_window _ _ _ (by decide), wordAt_window _ _ _ (by decide)]

theorem romfs_byteSize_ofBlock :
    (ofBlock block).romfs.byteSize.toNat = 0x200 * wordAt b (start + 0x1b4) 4 := by
  rw [HashedRegion.byteSize, toNat_unitBytes, romfs_size_ofBlock h]

theorem hasRomfs_ofBlock :
    (ofBlock block).hasRomfs = true ↔ wordAt b (start + 0x1b4) 4 ≠ 0 := by
  rw [← romfs_size_ofBlock h, hasRomfs, bne_iff_ne, ne_eq, ← UInt32.toNat_inj]
  rfl

end

end ContainerHeader

namespace SectionTable

variable {b : List UInt8} {start : Nat} {block : Block byteSize}

/-- The name in a slot as it is shown: up to the first zero, each byte a character. -/
def shownName (b : List UInt8) (start slot : Nat) : String :=
  String.ofList (((nameBytes b start slot).takeWhile (· != 0)).map fun c => Char.ofNat c.toNat)

/-- The names of the slots in use, as they are shown. -/
def shownNames (b : List UInt8) (start : Nat) : List String :=
  ((List.finRange 8).filter fun slot : Fin 8 => sizeNumber b start slot ≠ 0).map fun slot : Fin 8 =>
    shownName b start slot

theorem shownNames_ofBlock (h : block.toList = (b.drop start).take byteSize) :
    (ofBlock block).used.map (fun slot => slot.name.text) = shownNames b start := by
  have hused : (fun slot => (slotOf block slot).isUsed) =
      fun slot : Fin 8 => decide (sizeNumber b start slot ≠ 0) := by
    funext slot
    rw [Bool.eq_iff_iff, slotOf_isUsed h, decide_eq_true_eq]
  rw [used, slots_ofBlock, List.filter_map, List.map_map, shownNames]
  simp only [Function.comp_def, hused, FixedName.text, slotOf_name h, shownName]

end SectionTable

namespace Container

variable {fs : FileSystem} {path : Path} {offset : UInt64} {naming : Naming} {file : Handle}
  {header : ContainerHeader} {c : Container}

/-- The container at this place, with what its first load has read from these files. -/
structure FirstLoaded (fs : FileSystem) (path : Path) (offset : UInt64) (naming : Naming)
    (file : Handle) (header : ContainerHeader) (c : Container) : Prop
    extends LoadedOn fs file header c where
  path_eq : c.path = path
  offset_eq : c.offset = offset
  naming_eq : c.naming = naming
  file_at : fs.openPath path = .ok file

theorem load_of_stage (h : (Session.loading fs path offset naming).container.stage = .loaded) :
    ∃ file header,
      FirstLoaded fs path offset naming file header
        (Session.loading fs path offset naming).container ∧
      Runs (load fs) (Session.begin path offset naming).container (.ok ())
        (Session.loading fs path offset naming).container := by
  have hload : Runs (load fs) (Session.begin path offset naming).container _ _ :=
    load_runs (.inl rfl)
  have hrun : Runs (Operation.load.perform fs) (Session.begin path offset naming).container _ _ :=
    perform_load_runs (.inl rfl)
  have hnext : (Session.loading fs path offset naming).container = _ := hrun.container_eq
  have hformed := wellFormed_runAll path offset naming [(fs, .load)]
  obtain ⟨file, header, hloaded, hnaming, hopened⟩ :=
    loadedOn_run (wellFormed_runAll path offset naming []) nofun h
  refine ⟨file, header, ⟨hloaded, hformed.path_eq, hformed.offset_eq, hnaming, ?_⟩, ?_⟩
  · rcases openResult_eq_ok hopened with hfile | ⟨-, hopen⟩
    · cases hfile
    · exact hopen
  · rw [hnext] at h ⊢
    cases hresult : (loadResult fs (Session.begin path offset naming).container).1 with
    | ok _ =>
      rw [hresult] at hload
      exact hload
    | error e =>
      have hfailed := congrArg endStage hresult
      exact absurd (h.symm.trans hfailed) nofun

theorem load_of_stage_ne (h : (Session.loading fs path offset naming).container.stage ≠ .loaded) :
    ∃ e next, Runs (load fs) (Session.begin path offset naming).container (.error e) next := by
  have hload : Runs (load fs) (Session.begin path offset naming).container _ _ :=
    load_runs (.inl rfl)
  have hrun : Runs (Operation.load.perform fs) (Session.begin path offset naming).container _ _ :=
    perform_load_runs (.inl rfl)
  have hnext : (Session.loading fs path offset naming).container = _ := hrun.container_eq
  rw [hnext] at h
  cases hresult : (loadResult fs (Session.begin path offset naming).container).1 with
  | ok _ => exact absurd (congrArg endStage hresult) h
  | error e =>
    rw [hresult] at hload
    exact ⟨e, _, hload⟩

theorem loading_of_requirements
    (h : ∀ requirement ∈ requirements fs path offset naming, requirement.holds) :
    (Session.loading fs path offset naming).container.stage = .loaded :=
  loaded_of_requirements h

/-! ## What a load requires of the bytes -/

/-- The headers of a container are in these bytes, and name the same program. -/
def HeadersIn (b : List UInt8) (start : Nat) : Prop :=
  (start < 2 ^ 63 ∧ start + 0x200 ≤ b.length) ∧ (b.drop (start + 0x100)).take 4 = containerMagic ∧
    (wordAt b (start + 0x180) 4 = 0 ∨
      start + 0x200 < 2 ^ 63 ∧ start + 0x200 + 0x800 ≤ b.length) ∧
    (wordAt b (start + 0x180) 4 = 0 ∨
      wordAt b (start + 0x200 + 0x200) 8 = wordAt b (start + 0x118) 8)

/-- The table of the ExeFS is in these bytes, and its slots are inside of the ExeFS. -/
def TableIn (b : List UInt8) (start : Nat) : Prop :=
  let table := start + 0x200 * wordAt b (start + 0x1a0) 4
  (table < 2 ^ 63 ∧ table + 0x200 ≤ b.length) ∧
    ∀ slot : Fin 8, SectionTable.Inside b table (0x200 * wordAt b (start + 0x1a4) 4) slot

variable {start : Nat}

theorem headers_hold_iff :
    (∀ r ∈ headerRequirements fs file start ++ extendedRequirements fs file start, r.holds) ↔
      HeadersIn (fs.bytesBehind file) start := by
  have hheader : (∀ r ∈ headerRequirements fs file start, r.holds) ↔ fs.Readable file start 0x200 ∧
      ((fs.bytesBehind file).drop (start + 0x100)).take 4 = containerMagic := by
    simp [headerRequirements]
  have hextended : (∀ r ∈ extendedRequirements fs file start, r.holds) ↔
      (wordAt (fs.bytesBehind file) (start + 0x180) 4 = 0 ∨
        fs.Readable file (start + 0x200) 0x800) ∧
      (wordAt (fs.bytesBehind file) (start + 0x180) 4 = 0 ∨
        wordAt (fs.bytesBehind file) (start + 0x200 + 0x200) 8 =
          wordAt (fs.bytesBehind file) (start + 0x118) 8) := by
    simp [extendedRequirements]
  rw [List.forall_mem_append, hheader, hextended, and_assoc]
  rfl

theorem table_hold_iff {image : Path} :
    (∀ r ∈ tableRequirements fs file start image, r.holds) ↔
      UsableImage fs image ∨ wordAt (fs.bytesBehind file) (start + 0x1a4) 4 = 0 ∨
        TableIn (fs.bytesBehind file) start := by
  have hneedless : (UsableImage fs image ∨
      0x200 * wordAt (fs.bytesBehind file) (start + 0x1a4) 4 = 0) ↔
      (UsableImage fs image ∨ wordAt (fs.bytesBehind file) (start + 0x1a4) 4 = 0) :=
    or_congr_right (by omega)
  have hholds : (∀ r ∈ tableRequirements fs file start image, r.holds) ↔
      ((UsableImage fs image ∨ wordAt (fs.bytesBehind file) (start + 0x1a4) 4 = 0) ∨
        fs.Readable file (start + 0x200 * wordAt (fs.bytesBehind file) (start + 0x1a0) 4) 0x200) ∧
      ∀ slot : Fin 8,
        (UsableImage fs image ∨ wordAt (fs.bytesBehind file) (start + 0x1a4) 4 = 0) ∨
          SectionTable.Inside (fs.bytesBehind file)
            (start + 0x200 * wordAt (fs.bytesBehind file) (start + 0x1a0) 4)
            (0x200 * wordAt (fs.bytesBehind file) (start + 0x1a4) 4) slot := by
    simp only [tableRequirements, List.forall_mem_cons, List.forall_mem_map, List.mem_finRange,
      forall_const, decide_eq_true_eq, hneedless]
  rw [hholds, ← or_assoc]
  by_cases hfree :
      UsableImage fs image ∨ wordAt (fs.bytesBehind file) (start + 0x1a4) 4 = 0
  · exact iff_of_true ⟨.inl hfree, fun _ => .inl hfree⟩ (.inl hfree)
  · simp only [or_iff_right hfree]
    rfl

/-- When the container at an offset of a file is loaded, told from the bytes of the file. -/
theorem loaded_iff (hopen : fs.openPath path = .ok file) :
    (Session.loading fs path offset naming).container.stage = .loaded ↔
      HeadersIn (fs.bytesBehind file) offset.toNat ∧
        (UsableImage fs (path.withSuffix naming.imageSuffix) ∨
          wordAt (fs.bytesBehind file) (offset.toNat + 0x1a4) 4 = 0 ∨
          TableIn (fs.bytesBehind file) offset.toNat) := by
  have hrun : Runs (Operation.load.perform fs) (Session.begin path offset naming).container _ _ :=
    perform_load_runs (.inl rfl)
  have hfirst : (stepsResult fs (Session.begin path offset naming).container).1 =
      firstFailure (requirements fs path offset naming) := stepsResult_outcome rfl
  have hnext : (Session.loading fs path offset naming).container = _ := hrun.container_eq
  rw [hnext, loadResult, hfirst, ← headers_hold_iff, ← table_hold_iff, ← List.forall_mem_append]
  have hparts : requirements fs path offset naming = headerRequirements fs file offset.toNat ++
      extendedRequirements fs file offset.toNat ++
      tableRequirements fs file offset.toNat (path.withSuffix naming.imageSuffix) := by
    rw [requirements, hopen]
  rw [← hparts, ← firstFailure_eq_ok_iff]
  cases firstFailure (requirements fs path offset naming) with
  | ok _ => exact iff_of_true rfl rfl
  | error e =>
    constructor
    · intro hstage
      cases hstage
    · intro hnone
      cases hnone

/-! ## What the files say of it -/

/-- The names of the sections in use, as they are shown, of the container at a place. -/
def sectionNames (fs : FileSystem) (path : Path) (offset : UInt64) (naming : Naming) :
    List String :=
  match (fs.openPath path).toOption.bind fun file =>
    exefsPlace? fs (path.withSuffix naming.imageSuffix) file offset.toNat with
  | none => []
  | some (exefs, base) => SectionTable.shownNames (fs.bytesBehind exefs) base

theorem FirstLoaded.sectionNames_eq (h : FirstLoaded fs path offset naming file header c) :
    ((c.table?.map SectionTable.used).getD []).map (fun slot => slot.name.text) =
      sectionNames fs path offset naming := by
  have hstore := h.store_cases
  rw [h.path_eq, h.naming_eq, h.offset_eq] at hstore
  unfold sectionNames
  rw [h.file_at, Except.toOption, Option.bind_some]
  rcases hstore with ⟨hnone, hplace⟩ | ⟨store, block, hstore, hplace, htable, -, hlist⟩
  · rw [hplace, table?, h.store?_eq, hnone]
    rfl
  · rw [hplace, table?, h.store?_eq, hstore]
    dsimp only [Option.map_some, Option.getD_some]
    rw [htable, SectionTable.shownNames_ofBlock hlist]

theorem embeddedRomfsAnswer_isSome (h : LoadedOn fs file header c) :
    (embeddedRomfsAnswer c file).toOption.isSome = header.hasRomfs := by
  rw [h.noted.embeddedRomfsAnswer_eq h.header_eq]
  cases header.hasRomfs with
  | false => rfl
  | true => rfl

/-- A loaded container lacks a RomFS or has one: locating it does not fail in another way. -/
theorem status_of_romfsAnswer {e : ContainerError} (h : romfsAnswer fs c file = .error e) :
    e.status = .notUsed := by
  unfold romfsAnswer at h
  split at h
  · cases h
  · unfold embeddedRomfsAnswer at h
    split at h
    · cases h
    · cases h
      rfl

namespace FirstLoaded

variable {now : FileSystem} (h : FirstLoaded fs path offset naming file header c)
include h

/-- A section that no file can override is read from the ExeFS, also after other files were made. -/
theorem sectionAnswer_of_unnamed (hfs : fs.Addressable)
    (hsame : ∀ number, now.bytesOf number = fs.bytesOf number) {name : String}
    (hname : naming.fileName? name = none) (hlogo : name ≠ logoSection) :
    sectionAnswer now c file name =
      storedOutcome fs (path.withSuffix naming.imageSuffix) file offset.toNat name := by
  have hstored := h.storedAnswer_eq hfs name
  rw [h.path_eq, h.naming_eq, h.offset_eq] at hstored
  have hoverride : overrideAnswer now c name = .error (.notFound name) := by
    rw [overrideAnswer, h.naming_eq, if_pos hname]
  have hregion : c.regionOf? name = none := if_neg fun hboth => hlogo hboth.1
  rw [sectionAnswer, hoverride, hregion]
  exact (storedAnswer_congr hsame c name).trans hstored

theorem romfs_recorded :
    c.overrides.romfs = Source.ofFile fs (path.withSuffix naming.romfsSuffix) := by
  rw [h.recorded, h.path_eq, h.naming_eq]
  rfl

theorem hasRomfs_iff :
    header.hasRomfs = true ↔ wordAt (fs.bytesBehind file) (offset.toNat + 0x1b4) 4 ≠ 0 := by
  obtain ⟨block, rfl, -, hlist⟩ := headerAt_eq_ok h.header_read
  rw [ContainerHeader.hasRomfs_ofBlock hlist, h.offset_eq]

/-- The RomFS of a container has bytes, and is in its file where the header says. -/
theorem embeddedRomfsAnswer_eq_ok {range : FileRange}
    (hrange : embeddedRomfsAnswer c file = .ok range) :
    range.file = file ∧
      range.offset.toNat =
        offset.toNat + 0x200 * wordAt (fs.bytesBehind file) (offset.toNat + 0x1b0) 4 ∧
      range.size.toNat = 0x200 * wordAt (fs.bytesBehind file) (offset.toNat + 0x1b4) 4 ∧
      wordAt (fs.bytesBehind file) (offset.toNat + 0x1b4) 4 ≠ 0 ∧ offset.toNat < 2 ^ 63 := by
  obtain rfl := h.offset_eq
  have hdeclared := embeddedRomfsAnswer_isSome h.toLoadedOn
  rw [hrange] at hdeclared
  have hsome := h.hasRomfs_iff.mp hdeclared.symm
  rw [h.noted.embeddedRomfsAnswer_eq h.header_eq, ← hdeclared] at hrange
  cases hrange
  obtain ⟨block, rfl, hread, hlist⟩ := headerAt_eq_ok h.header_read
  have hplace := toNat_add_of_low hread.1
    (HashedRegion.byteOffset_lt (ContainerHeader.ofBlock block).romfs)
  rw [ContainerHeader.romfs_byteOffset_ofBlock hlist] at hplace
  exact ⟨rfl, hplace, ContainerHeader.romfs_byteSize_ofBlock hlist, hsome, hread.1⟩

/-- The RomFS of a container is missing exactly if its size is given as zero. -/
theorem embeddedRomfsAnswer_eq_error {e : ContainerError} :
    embeddedRomfsAnswer c file = .error e ↔
      e = .notUsed "RomFS" ∧ wordAt (fs.bytesBehind file) (offset.toNat + 0x1b4) 4 = 0 := by
  have hdeclared := h.hasRomfs_iff
  rw [h.noted.embeddedRomfsAnswer_eq h.header_eq]
  by_cases hsize : wordAt (fs.bytesBehind file) (offset.toNat + 0x1b4) 4 = 0
  · have hnone : header.hasRomfs = false := by
      rw [← Bool.not_eq_true, hdeclared]
      exact fun hne => hne hsize
    rw [hnone, and_iff_left hsize]
    exact ⟨fun herror => (Except.error.inj herror).symm, fun he => he ▸ rfl⟩
  · rw [hdeclared.mpr hsize]
    exact iff_of_false nofun fun hboth => hsize hboth.2

/-- A container without a RomFS has none later either. -/
theorem romfsAnswer_of_absent (hoverride : fs.isFile (path.withSuffix naming.romfsSuffix) = false)
    (hsize : wordAt (fs.bytesBehind file) (offset.toNat + 0x1b4) 4 = 0) :
    romfsAnswer now c file = .error (.notUsed "RomFS") := by
  have hrecord : c.overrides.romfs = .embedded := by
    rw [h.romfs_recorded, Source.ofFile, hoverride]
    rfl
  rw [romfsAnswer, overrideRomfsAnswer, hrecord]
  exact h.embeddedRomfsAnswer_eq_error.mpr ⟨rfl, hsize⟩

/-- A file at the path of the RomFS is taken as a whole. -/
theorem romfsAnswer_of_file {number : Nat}
    (hopen : fs.openHandle (path.withSuffix naming.romfsSuffix) = .ok (.file number)) :
    romfsAnswer fs c file =
      .ok ⟨.file number, path.withSuffix naming.romfsSuffix, 0, fs.sizeOf (.file number)⟩ := by
  have hrecord : c.overrides.romfs = .override (path.withSuffix naming.romfsSuffix) := by
    rw [h.romfs_recorded, Source.ofFile, FileSystem.isFile, hopen]
    rfl
  rw [romfsAnswer, overrideRomfsAnswer, hrecord]
  dsimp only
  rw [FileSystem.openPath, hopen]
  rfl

end FirstLoaded

end Container
end Cartridge
