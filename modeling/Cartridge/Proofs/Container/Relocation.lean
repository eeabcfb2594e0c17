import Cartridge.Proofs.Container.Placed
import Cartridge.Proofs.Container.Representation
import Cartridge.Proofs.Storage.Places

/-!
# Containers further on in their files

Nothing that a container does depends on where in its file it starts. One that starts after some
bytes does the same as one that starts the file that these bytes are put in front of: the place of
the container is part of every offset in its own file, and of none in another. Only where that is
farther than any file reaches does a read fail for another reason.
-/
namespace Cartridge

open Procedure

namespace Container

variable {fs moved : FileSystem} {own : Nat} {front : List UInt8} {path : Path} {c : Container}

/-! ## Sections -/

theorem readRegion_same {file : Handle} (hsame : fs.SameBehind moved file) (start size : UInt64)
    (what : String) :
    readRegion moved file start size what = readRegion fs file start size what := by
  unfold readRegion
  rw [hsame.sizeOf_eq, hsame.readExactly_eq]

/-- The sections of an image that can be used can be read. -/
theorem readRegion_of_imageStore {p : Path} {store : SectionStore} {name : String} {index : Fin 8}
    (himage : imageStore? fs p = some store) (hindex : store.table.position? name = some index)
    (what : String) :
    ∃ bytes, readRegion fs store.file
      (store.base + UInt64.ofNat SectionTable.byteSize +
        (store.table.slots.get index).offset.toUInt64)
      (store.table.slots.get index).size.toUInt64 what = .ok bytes := by
  obtain ⟨file, table, -, htable, rfl⟩ := imageStore_eq_some_iff.mp himage
  have hnamed := (findFinIdx?_eq_some_iff.mp hindex).1
  rw [Bool.and_eq_true] at hnamed
  dsimp only at hnamed ⊢
  generalize hslot : table.slots.get index = slot at hnamed
  have hmem : slot ∈ table.used := by
    refine List.mem_filter.mpr ⟨?_, hnamed.1⟩
    rw [← hslot]
    exact Vector.mem_toList_iff.mpr (Vector.getElem_mem index.isLt)
  have hinside := tableAt_inside htable slot hmem
  have hsize := sizeOf_le_of_readable (by decide) (readable_of_tableAt htable)
  have hoffset : (0 + UInt64.ofNat SectionTable.byteSize + slot.offset.toUInt64).toNat =
      0x200 + slot.offset.toNat := by
    have hlow := slot.offset.toNat_lt
    have htable : (0 + UInt64.ofNat SectionTable.byteSize : UInt64).toNat = 0x200 := rfl
    rw [toNat_add_of_low (by omega) (by rw [UInt32.toNat_toUInt64]; omega), htable,
      UInt32.toNat_toUInt64]
  have hused : 0 < slot.size.toUInt64.toNat := by
    have hne : slot.size ≠ 0 := bne_iff_ne.mp hnamed.1
    rw [UInt32.toNat_toUInt64]
    exact Nat.pos_of_ne_zero fun hzero => hne (UInt32.toNat_inj.mp hzero)
  have hread : fs.Readable file
      (0 + UInt64.ofNat SectionTable.byteSize + slot.offset.toUInt64).toNat
      slot.size.toUInt64.toNat := by
    have hlow := slot.offset.toNat_lt
    rw [hoffset, UInt32.toNat_toUInt64]
    exact ⟨by omega, by omega⟩
  obtain ⟨bytes, hbytes, -⟩ := FileSystem.readExactly_of_readable hused hread
  refine ⟨bytes, ?_⟩
  unfold readRegion
  dsimp only
  rw [if_neg (by rw [hoffset, UInt32.toNat_toUInt64]; omega), hbytes]
  rfl

section

variable (h : fs.Fronted moved path own front)
include h

theorem readRegion_own {start : UInt64} (hstart : start.toNat < 2 ^ 63) (size : UInt64)
    (what : String) :
    Matches Eq (ContainerError.Moved front.length) (readRegion fs (.file own) start size what)
      (readRegion moved (.file own) (start + UInt64.ofNat front.length) size what) := by
  have hplace := h.toNat_add_shift hstart
  have hsize := h.sizeOf_own
  unfold readRegion
  dsimp only
  by_cases hbeyond : (fs.sizeOf (.file own)).toNat < start.toNat + size.toNat
  · rw [if_pos hbeyond, if_pos (by omega)]
    exact .error (.regionOutOfBounds what size hplace hsize)
  · rw [if_neg hbeyond, if_neg (by omega)]
    exact (h.readExactly_own hstart _).mapError fun _ _ => .file

/-- The region of a section in the ExeFS in use. -/
theorem readRegion_store {store : SectionStore} {name : String} {index : Fin 8}
    (hstore : StoreAt fs moved own store) (hindex : store.table.position? name = some index)
    (what : String) :
    let slot := store.table.slots.get index
    let header := UInt64.ofNat SectionTable.byteSize
    Matches Eq (ContainerError.Moved front.length)
      (readRegion fs store.file (store.base + header + slot.offset.toUInt64)
        slot.size.toUInt64 what)
      (readRegion moved store.file
        ((store.moved front.length).base + header + slot.offset.toUInt64)
        slot.size.toUInt64 what) := by
  intro slot header
  cases hstore with
  | embedded hsource hown hbase =>
    have hlow := slot.offset.toNat_lt
    have hheader : (store.base + header).toNat = store.base.toNat + 0x200 :=
      toNat_add_of_low (by omega) (by decide)
    have hstart : (store.base + header + slot.offset.toUInt64).toNat < 2 ^ 63 := by
      rw [toNat_add_of_low (by omega) (by rw [UInt32.toNat_toUInt64]; omega), hheader,
        UInt32.toNat_toUInt64]
      omega
    have hread := readRegion_own h hstart slot.size.toUInt64 what
    rw [hown, SectionStore.moved, hsource]
    dsimp only
    rw [add_right_comm store.base (UInt64.ofNat front.length),
      add_right_comm (store.base + header) (UInt64.ofNat front.length)]
    exact hread
  | image p himage hsame =>
    obtain ⟨bytes, hbytes⟩ := readRegion_of_imageStore himage hindex what
    rw [moved_of_imageStore himage, readRegion_same hsame, hbytes]
    exact .ok rfl

theorem storedAnswer_moved (hc : Placed fs moved own path c) (name : String) :
    Matches Eq (ContainerError.Moved front.length) (storedAnswer fs c name)
      (storedAnswer moved (c.moved front.length) name) := by
  unfold storedAnswer
  rw [moved_store?]
  cases hstore : c.store? with
  | none => exact .error (.same rfl)
  | some store =>
    rw [Option.map_some]
    dsimp only
    rw [SectionStore.moved_table, SectionStore.moved_file]
    cases hindex : store.table.position? name with
    | none => exact .error (.same rfl)
    | some index =>
      refine (readRegion_store h (hc.store_at store (store_of_store? hstore)) hindex _).bind ?_
      rintro bytes _ rfl
      rw [moved_isCompressed]
      by_cases hcode : (name = codeSection && c.isCompressed) = true
      · rw [if_pos hcode]
        cases Compression.decompress bytes with
        | ok unpacked => exact .ok rfl
        | error e => exact .error (.same rfl)
      · rw [if_neg hcode]
        exact .ok rfl

theorem follows_readStoredSection (name : String) :
    Follows fs moved own path front.length Eq (readStoredSection fs name)
      (readStoredSection moved name) := by
  refine .of_runs ?_
  rintro c _ ⟨hc, rfl⟩
  exact ⟨_, _, _, _, readStoredSection_runs fs c name, readStoredSection_runs moved _ name,
    storedAnswer_moved h hc name, hc, rfl⟩

theorem follows_readOverrideSection (name : String) :
    Follows fs moved own path front.length Eq (readOverrideSection fs name)
      (readOverrideSection moved name) := by
  refine .bind_eq (follows_load h) fun _ => .container_bind ?_
  rintro c _ ⟨hc, rfl⟩
  rw [moved_naming, moved_overrides]
  refine .optional (follows_throw rfl) ?_
  cases hsource : c.overrides.section? name with
  | embedded => exact follows_throw rfl
  | override p =>
    have hsame := hc.overrides_same p (mem_foundPaths_section hsource)
    dsimp only
    rw [hsame.wholeFile?_eq]
    cases fs.wholeFile? p with
    | some bytes => exact .bind_eq (.of_note _ _ _) fun _ => .of_pure rfl
    | none => exact .bind_eq (.of_note _ _ _) fun _ => follows_throw rfl

theorem follows_readLogo (region : Region) :
    Follows fs moved own path front.length Eq (readLogo fs region) (readLogo moved region) := by
  refine .bind (follows_openFile h) ?_
  rintro _ _ ⟨rfl, rfl⟩
  refine .container_bind ?_
  rintro c _ ⟨hc, rfl⟩
  have hstart : (c.offset + region.byteOffset).toNat < 2 ^ 63 := by
    rw [hc.offset_eq, UInt64.zero_add]
    exact region.byteOffset_lt
  have hread := readRegion_own h hstart region.byteSize "logo region"
  rw [add_right_comm, Region.byteOffset, Region.byteSize] at hread
  simp only [moved_offset, unitBytesM_eq, sum_eq_pure, pure_bind]
  rcases hread.eq_ok_or_eq_error with ⟨bytes, _, hbytes, hbytes', rfl⟩ | ⟨e, e', he, he', hmoved⟩
  · rw [hbytes, hbytes']
    exact .of_pure rfl
  · rw [he, he']
    exact .bind_eq (.of_note _ _ _) fun _ => .of_throw hmoved

theorem follows_readSection (name : String) :
    Follows fs moved own path front.length Eq (readSection fs name) (readSection moved name) := by
  have hstored := follows_readStoredSection h name
  refine .bind_eq (follows_load h) fun _ =>
    .bind (follows_readOverrideSection h name).attempt fun x y hxy => ?_
  cases hxy with
  | ok hbytes => exact .of_pure hbytes
  | @error e e' he =>
    have hback : fallsBack e' = fallsBack e := by rw [fallsBack, fallsBack, he.status_eq]
    dsimp only
    rw [hback]
    refine .optional (.of_throw he) (.container_bind ?_)
    rintro c _ ⟨hc, rfl⟩
    rw [moved_overrides, moved_header]
    by_cases hlogo : (name = logoSection && !c.overrides.exefs.isOverride) = true
    · rw [if_pos hlogo, if_pos hlogo]
      cases c.header with
      | none => exact .bind_eq (.of_note _ _ _) fun _ => hstored
      | some header =>
        dsimp only
        cases header.logo.isPresent with
        | true => exact follows_readLogo h header.logo
        | false => exact .bind_eq (.of_note _ _ _) fun _ => hstored
    · rw [if_neg hlogo, if_neg hlogo]
      exact hstored

/-! ## The RomFS and the program -/

theorem rangeMoved_same {r : FileRange} (hsame : fs.SameBehind moved r.file) :
    RangeMoved fs moved own front.length r r := by
  have hmoved := FileRange.moved_same hsame
  unfold RangeMoved
  by_cases hown : r.file = .file own
  · rw [hown] at hsame
    rw [if_pos hown, h.length_eq_zero hsame]
    exact hmoved
  · rw [if_neg hown]
    exact hmoved

theorem follows_locateOverrideRomfs :
    Follows fs moved own path front.length (RangeMoved fs moved own front.length)
      (locateOverrideRomfs fs) (locateOverrideRomfs moved) := by
  refine .bind_eq (follows_ensureHeader h) fun _ => .container_bind ?_
  rintro c _ ⟨hc, rfl⟩
  rw [moved_overrides]
  cases hsource : c.overrides.romfs with
  | embedded => exact .of_throw (.same rfl)
  | override p =>
    have hsame := hc.overrides_same p (mem_foundPaths_romfs hsource)
    dsimp only
    rw [hsame.openPath_eq]
    cases hopen : fs.openPath p with
    | error e => exact .bind_eq (.of_note _ _ _) fun _ => .of_throw (.same rfl)
    | ok file =>
      have hfile := hsame.same file (mapError_eq_ok.mp hopen)
      refine .bind_eq (.of_note _ _ _) fun _ => .of_pure ?_
      rw [hfile.sizeOf_eq]
      exact rangeMoved_same h hfile

theorem follows_locateEmbeddedRomfs :
    Follows fs moved own path front.length (RangeMoved fs moved own front.length)
      (locateEmbeddedRomfs fs) (locateEmbeddedRomfs moved) := by
  refine .container_bind ?_
  rintro c _ ⟨hc, rfl⟩
  simp only [moved_hasRomfs, moved_romfsRegion, moved_offset, unitBytesM_eq, sum_eq_pure, pure_bind]
  split
  · refine .bind_eq (.of_note _ _ _) fun _ => .bind_eq (.of_note _ _ _) fun _ =>
      .bind (follows_openFile h) ?_
    rintro _ _ ⟨rfl, rfl⟩
    refine .of_pure ?_
    have hlow : (c.offset + unitBytes c.romfsRegion.offset).toNat +
        (unitBytes c.romfsRegion.size).toNat < 2 ^ 63 := by
      have hoffset := toNat_unitBytes_lt c.romfsRegion.offset
      have hsize := toNat_unitBytes_lt c.romfsRegion.size
      rw [hc.offset_eq, UInt64.zero_add]
      omega
    rw [RangeMoved, if_pos rfl, add_right_comm]
    exact FileRange.moved_own h rfl hlow
  · exact .bind_eq (.of_note _ _ _) fun _ => .of_throw (.same rfl)

theorem follows_locateRomfs :
    Follows fs moved own path front.length (RangeMoved fs moved own front.length)
      (locateRomfs fs) (locateRomfs moved) := by
  refine .bind_eq (follows_ensureHeader h) fun _ =>
    .bind (follows_locateOverrideRomfs h).attempt fun x y hxy => ?_
  cases hxy with
  | ok hrange => exact .of_pure hrange
  | error => exact follows_locateEmbeddedRomfs h

theorem follows_readProgramId :
    Follows fs moved own path front.length Eq (readProgramId fs) (readProgramId moved) := by
  refine .bind_eq (follows_ensureHeader h) fun _ => .container_bind ?_
  rintro c _ ⟨hc, rfl⟩
  rw [moved_header]
  cases c.header with
  | none => exact .of_pure rfl
  | some header => exact .of_pure rfl

/-! ## Histories -/

/-- Every operation does the same to a container further on. -/
theorem follows_perform (op : Operation)
    (hop : ∀ used, op = .useNaming used → SameOverrides fs moved path used) :
    Follows fs moved own path front.length (Answer.Moved fs moved own front.length) (op.perform fs)
      (op.perform moved) := by
  cases op with
  | openFile =>
    exact .bind_eq (.bind (follows_openFile h) fun _ _ _ => .of_pure rfl) fun _ =>
      .of_pure .done
  | load => exact .bind_eq (follows_load h) fun _ => .of_pure .done
  | findOverrides => exact .bind_eq (follows_findOverrides) fun _ => .of_pure .done
  | useNaming used =>
    refine .bind_eq (.of_update ?_) fun _ => .of_pure .done
    rintro c _ ⟨hc, rfl⟩
    exact ⟨⟨hc.path_eq, hc.offset_eq, hc.file_eq, hop used rfl, hc.overrides_same, hc.store_at⟩,
      rfl⟩
  | readSection name =>
    exact .bind_eq (follows_readSection h name) fun _ => .of_pure (.bytes _)
  | readOverrideSection name =>
    exact .bind_eq (follows_readOverrideSection h name) fun _ => .of_pure (.bytes _)
  | locateRomfs =>
    exact .bind (follows_locateRomfs h) fun _ _ hrange => .of_pure (.range hrange)
  | locateOverrideRomfs =>
    exact .bind (follows_locateOverrideRomfs h) fun _ _ hrange => .of_pure (.range hrange)
  | readProgramId => exact .bind_eq (follows_readProgramId h) fun _ => .of_pure (.programId _)

theorem follows_run (op : Operation)
    (hop : ∀ used, op = .useNaming used → SameOverrides fs moved path used) {s t : Session}
    (hs : Placed fs moved own path s.container)
    (ht : t.container = s.container.moved front.length) :
    Matches (Answer.Moved fs moved own front.length) (ContainerError.Moved front.length)
      (s.run fs op).1 (t.run moved op).1 ∧
    Placed fs moved own path (s.run fs op).2.container ∧
    (t.run moved op).2.container = (s.run fs op).2.container.moved front.length :=
  follows_perform h op hop s t ⟨hs, ht⟩

theorem follows_runAll (ops : List Operation)
    (hops : ∀ used, .useNaming used ∈ ops → SameOverrides fs moved path used)
    {s t : Session} (hs : Placed fs moved own path s.container)
    (ht : t.container = s.container.moved front.length) :
    let last := (s.runAll (ops.map fun op => (fs, op))).container
    List.Forall₂ (Matches (Answer.Moved fs moved own front.length)
        (ContainerError.Moved front.length))
      (s.outcomes (ops.map fun op => (fs, op))) (t.outcomes (ops.map fun op => (moved, op))) ∧
    Placed fs moved own path last ∧
    (t.runAll (ops.map fun op => (moved, op))).container = last.moved front.length := by
  induction ops generalizing s t with
  | nil => exact ⟨.nil, hs, ht⟩
  | cons op rest ih =>
    obtain ⟨houtcome, hs', ht'⟩ :=
      follows_run h op (fun used heq => hops used (heq ▸ List.mem_cons_self)) hs ht
    obtain ⟨houtcomes, hend⟩ :=
      ih (fun used hused => hops used (List.mem_cons_of_mem _ hused)) hs' ht'
    exact ⟨.cons houtcome houtcomes, hend⟩

end

/-- A container of which nothing has been read is further on like any other. -/
theorem placed_begin (own : Nat) (front : List UInt8) {naming : Naming} (hsame : SameOverrides fs moved path naming) :
    Placed fs moved own path (Session.begin path 0 naming).container ∧
      (Session.begin path (UInt64.ofNat front.length) naming).container =
        (Session.begin path 0 naming).container.moved front.length := by
  refine ⟨⟨rfl, rfl, nofun, hsame, nofun, nofun⟩, ?_⟩
  show _ = { Container.withNaming (.new path 0) naming with
    offset := 0 + UInt64.ofNat front.length, store := none }
  rw [UInt64.zero_add]
  rfl

/-- The two containers are the same to all questions, but for where they start in their files. -/
structure Alike (n : Nat) (c d : Container) : Prop where
  path_eq : d.path = c.path
  offset_eq : d.offset.toNat = c.offset.toNat + n
  naming_eq : d.naming = c.naming
  stage_eq : d.stage = c.stage
  overrides_eq : d.overrides = c.overrides
  header_eq : d.header = c.header
  extended_eq : d.extended? = c.extended?
  table_eq : d.table? = c.table?
  exefsOffset_eq : d.exefsOffset = c.exefsOffset
  isCompressed_eq : d.isCompressed = c.isCompressed
  usesImage_eq : d.usesImage = c.usesImage
  hasHeader_eq : d.hasHeader = c.hasHeader
  hasExtended_eq : d.hasExtended = c.hasExtended
  hasExefs_eq : d.hasExefs = c.hasExefs
  hasRomfs_eq : d.hasRomfs = c.hasRomfs
  isTainted_eq : d.isTainted = c.isTainted
  isLoaded_eq : d.isLoaded = c.isLoaded

theorem alike_moved {n : Nat} (c : Container)
    (hoffset : (c.offset + UInt64.ofNat n).toNat = c.offset.toNat + n) : Alike n c (c.moved n) := by
  have htable : (c.moved n).table? = c.table? := by
    simp only [table?, moved_store?, Option.map_map, Function.comp_def, SectionStore.moved_table]
  have himage : (c.moved n).usesImage = c.usesImage := by
    simp only [usesImage, moved_store, Option.any_map, SectionStore.moved_source]
  constructor
  case table_eq => exact htable
  case usesImage_eq => exact himage
  case offset_eq => exact hoffset
  all_goals rfl

/-- The container and its image, with three bytes in front of the container. -/
def withImageFurther : FileSystem :=
  { withImage with
    contents := #[([1, 2, 3] ++ containerOf (exefsOf (utf8 "icon") (utf8 "EMBD"))).toArray,
      (exefsOf (utf8 "icon") (utf8 "IMAG")).toArray] }

theorem fronted_withImage : withImage.Fronted withImageFurther ⟨"game.cxi"⟩ 0 [1, 2, 3] where
  opens := rfl
  opens_moved := rfl
  own_eq := rfl
  low := by decide +kernel

theorem sameOverrides_withImage :
    SameOverrides withImage withImageFurther ⟨"game.cxi"⟩ .standard := by
  have hapart : ∀ p ∈ overridePaths ⟨"game.cxi"⟩ .standard,
      withImage.openHandle p ≠ .ok (.file 0) := by decide +kernel
  have hentries : withImageFurther.entries = withImage.entries := rfl
  refine fun p hp => ⟨FileSystem.openHandle_congr hentries rfl p, ?_⟩
  rintro _ hopen number rfl
  match number with
  | 0 => exact absurd hopen (hapart p hp)
  | 1 => rfl
  | _ + 2 => rfl

/-- Where the bytes in front take a read to 2^63 or above, it fails for another reason. -/
theorem load_further (h : fs.Fronted moved path own front) {naming : Naming}
    (hsame : SameOverrides fs moved path naming) {start : UInt64} {length : Nat}
    {fault : StorageFault}
    (hload : ((Session.begin path 0 naming).run fs .load).1 =
      .error (.file (.shortRead start length fault)))
    (hfar : 2 ^ 63 ≤ start.toNat + front.length) :
    ((Session.begin path (UInt64.ofNat front.length) naming).run moved .load).1 =
      .error (.file (.shortRead (start + UInt64.ofNat front.length) length .invalidArgument)) := by
  obtain ⟨hplaced, hstart⟩ := placed_begin own front hsame
  obtain ⟨houtcome, -⟩ := follows_run h .load nofun hplaced hstart
  rcases houtcome.eq_ok_or_eq_error with ⟨_, _, hdone, -, -⟩ | ⟨e, e', he, he', hmoved⟩
  · cases hload.symm.trans hdone
  · cases hload.symm.trans he
    cases hmoved with
    | same hplaceless => cases hplaceless
    | file hmoved =>
      cases hmoved with
      | @shortRead _ place _ _ hplace =>
        have hsum : start + UInt64.ofNat front.length = place := by
          apply UInt64.toNat_inj.mp
          rw [UInt64.toNat_add, h.toNat_shift, ← hplace, Nat.mod_eq_of_lt place.toNat_lt]
        rw [hsum, he', StorageFault.at, if_pos (hplace ▸ hfar)]

/-- A container of one header. The ExeFS that it declares is not in the file. -/
def headerAlone : FileSystem where
  contents := #[(List.replicate 0x100 0 ++ containerMagic ++ List.replicate 0x9c 0 ++ octets 4 8 ++
    octets 4 1 ++ List.replicate 0x58 0).toArray]
  entries := [(["game.cxi"], .file 0)]
  workingDirectory := []

/-- The same container with these bytes in front of it. -/
def headerFurther (front : List UInt8) : FileSystem :=
  { headerAlone with contents := #[(front ++ (headerAlone.bytesOf 0).toList).toArray] }

theorem load_headerAlone :
    ((Session.begin ⟨"game.cxi"⟩ 0 .standard).run headerAlone .load).1 =
      .error (.file (.shortRead 0x1000 0x200 .endOfFile)) :=
  failed_of_requirement (by decide +kernel)

theorem fronted_headerAlone {front : List UInt8} (hlow : front.length + 0x200 < 2 ^ 63) :
    headerAlone.Fronted (headerFurther front) ⟨"game.cxi"⟩ 0 front where
  opens := rfl
  opens_moved := rfl
  own_eq := List.toList_toArray
  low := by
    have hsize : (headerAlone.bytesOf 0).size = 0x200 := by decide +kernel
    rw [hsize]
    exact hlow

theorem sameOverrides_headerAlone (front : List UInt8) :
    SameOverrides headerAlone (headerFurther front) ⟨"game.cxi"⟩ .standard := by
  have hapart : ∀ p ∈ overridePaths ⟨"game.cxi"⟩ .standard,
      headerAlone.openHandle p ≠ .ok (.file 0) := by decide +kernel
  have hentries : (headerFurther front).entries = headerAlone.entries := rfl
  refine fun p hp => ⟨FileSystem.openHandle_congr hentries rfl p, ?_⟩
  rintro _ hopen number rfl
  match number with
  | 0 => exact absurd hopen (hapart p hp)
  | _ + 1 => rfl

end Container

end Cartridge
