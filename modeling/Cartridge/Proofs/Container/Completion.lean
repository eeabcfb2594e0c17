import Cartridge.Proofs.Container.Lasting

/-!
# What a load leaves

The parts of a loaded container are functions of the files that its load met: its header, its
extended header and the ExeFS in use are all read from them. A container whose load failed has at
most a header. Between two operations every container has one of these few forms.
-/
namespace Cartridge

open Procedure

namespace Container

variable {fs : FileSystem} {path image : Path} {offset : UInt64} {naming : Naming} {file : Handle}
  {opened : Except ContainerError Handle} {header : ContainerHeader} {c : Container}

/-! ## The parts that are read -/

/-- The extended header that a load reads, if the header declares one. -/
def findExtended (fs : FileSystem) (file : Handle) (header : ContainerHeader) (start : UInt64) :
    Except ContainerError (Option ExtendedHeader) :=
  if header.hasExtended then do
    let extended ← extendedAt fs file (start + UInt64.ofNat ContainerHeader.byteSize)
    if extended.programId != header.programId then
      .error (.encrypted header.programId extended.programId)
    else return some extended
  else return none

/-- The ExeFS that a load finds: the image that overrides it, if that can be used, or else the one
that the header declares. -/
def findStore (fs : FileSystem) (image : Path) (file : Handle) (header : ContainerHeader)
    (start : UInt64) : Except ContainerError (Option SectionStore) :=
  match (Source.ofFile fs image).path?.bind (imageStore? fs) with
  | some store => return some store
  | none =>
    if header.hasExefs then do
      let base := start + header.exefs.byteOffset
      let table ← tableAt fs file base header.exefs.byteSize
      return some ⟨file, base, table, .embedded⟩
    else return none

/-- Where the sections come from that are in no file of their own. -/
def sourceOf (store : Option SectionStore) : Source :=
  (store.map SectionStore.source).getD .embedded

theorem usesImage_of_store {store : Option SectionStore} (h : c.store = store) :
    c.usesImage = (sourceOf store).isOverride := by
  rw [usesImage, sourceOf, h]
  cases store with
  | some store => rfl
  | none => rfl

theorem store_of_store? {store : SectionStore} (h : c.store? = some store) :
    c.store = some store := by
  unfold store? at h
  split at h
  · exact h
  · cases h

/-- What is noted of a container is what its header declares, and the image that it uses. -/
structure Noted (c : Container) : Prop where
  header_eq : c.hasHeader = c.header.isSome
  extended_eq : c.hasExtended = c.header.any ContainerHeader.hasExtended
  exefs_eq : c.hasExefs = (c.usesImage || c.header.any ContainerHeader.hasExefs)
  romfs_eq : c.hasRomfs = c.header.any ContainerHeader.hasRomfs

theorem Noted.of_store {store : Option SectionStore} (hstore : c.store = store)
    (hheader : c.hasHeader = c.header.isSome)
    (hextended : c.hasExtended = c.header.any ContainerHeader.hasExtended)
    (hexefs : c.hasExefs =
      ((sourceOf store).isOverride || c.header.any ContainerHeader.hasExefs))
    (hromfs : c.hasRomfs = c.header.any ContainerHeader.hasRomfs) : Noted c :=
  ⟨hheader, hextended, by rw [usesImage_of_store hstore, hexefs], hromfs⟩

/-- A RomFS is noted only once there is a header. -/
theorem Noted.header_of_romfs (h : Noted c) (hromfs : c.hasRomfs = true) : c.header.isSome := by
  rw [h.romfs_eq] at hromfs
  cases hheader : c.header with
  | none => simp [hheader] at hromfs
  | some header => rfl

theorem Noted.hasExtended_of_header (h : Noted c) (hheader : c.header = some header) :
    c.hasExtended = header.hasExtended := by
  rw [h.extended_eq, hheader, Option.any_some]

theorem Noted.hasRomfs_of_header (h : Noted c) (hheader : c.header = some header) :
    c.hasRomfs = header.hasRomfs := by
  rw [h.romfs_eq, hheader, Option.any_some]

theorem Noted.congr (h : Noted c) (stage : Stage) (file : Option Handle) (overrides : OverrideSet)
    (naming : Naming) :
    Noted { c with stage := stage, file := file, overrides := overrides, naming := naming } :=
  ⟨h.header_eq, h.extended_eq, h.exefs_eq, h.romfs_eq⟩

/-- A loaded container, all parts of which were read from these files. -/
structure Gathered (fs : FileSystem) (image : Path) (file : Handle) (header : ContainerHeader)
    (c : Container) : Prop where
  stage_eq : c.stage = .loaded
  file_eq : c.file = some file
  header_eq : c.header = some header
  header_read : headerAt fs file c.offset = .ok header
  extended_read : findExtended fs file header c.offset = .ok c.extended
  compressed_eq : c.isCompressed = c.extended.any fun extended => extended.codeSet.isCompressed
  store_read : findStore fs image file header c.offset = .ok c.store
  noted : Noted c

theorem Gathered.congr (h : Gathered fs image file header c) (overrides : OverrideSet)
    (naming : Naming) :
    Gathered fs image file header { c with overrides := overrides, naming := naming } :=
  ⟨h.stage_eq, h.file_eq, h.header_eq, h.header_read, h.extended_read, h.compressed_eq, h.store_read,
    h.noted.congr _ _ _ _⟩

/-- A container that was just loaded: the override files that it knows are those that are there,
but for an image that cannot be used. -/
structure LoadedOn (fs : FileSystem) (file : Handle) (header : ContainerHeader) (c : Container) :
    Prop extends Gathered fs (c.path.withSuffix c.naming.imageSuffix) file header c where
  recorded : c.overrides = { OverrideSet.resolve fs c.path c.naming with exefs := sourceOf c.store }

theorem imageStore_of_open {p : Path} (h : fs.openPath p = .ok file) :
    imageStore? fs p = (tableAt fs file 0 (fs.sizeOf file)).toOption.map fun table =>
      ⟨file, 0, table, .override p⟩ := by
  rw [imageStore?_eq_bind, imageTable?, tableAt, h]
  show ((fs.readExactly file 0 SectionTable.byteSize).toOption >>= _).bind _ = _
  cases fs.readExactly file 0 SectionTable.byteSize with
  | error e => rfl
  | ok bytes =>
    rw [ok_mapError_bind]
    show ((SectionTable.ofBytes bytes).toOption >>= _).bind _ = _
    cases SectionTable.ofBytes bytes with
    | error e => rfl
    | ok table =>
      rw [ok_mapError_bind]
      show (table.checkBounds (fs.sizeOf file)).toOption.map _ = _
      cases table.checkBounds (fs.sizeOf file) with
      | error e => rfl
      | ok _ => rfl

/-- An image that can be used is a file with a table that it is large enough for. -/
theorem imageStore_eq_some_iff {p : Path} {store : SectionStore} :
    imageStore? fs p = some store ↔
      ∃ file table, fs.openPath p = .ok file ∧ tableAt fs file 0 (fs.sizeOf file) = .ok table ∧
        store = ⟨file, 0, table, .override p⟩ := by
  constructor
  · intro h
    cases hopen : fs.openPath p with
    | error e =>
      simp [imageStore?_eq_bind, imageTable?, hopen, Except.toOption] at h
    | ok file =>
      rw [imageStore_of_open hopen] at h
      cases htable : tableAt fs file 0 (fs.sizeOf file) with
      | error e =>
        rw [htable] at h
        cases h
      | ok table =>
        rw [htable] at h
        exact ⟨file, table, rfl, htable, (Option.some.inj h).symm⟩
  · rintro ⟨file, table, hopen, htable, rfl⟩
    rw [imageStore_of_open hopen, htable]
    rfl

theorem imageStore_source {p : Path} {store : SectionStore} (h : imageStore? fs p = some store) :
    store.source = .override p := by
  obtain ⟨file, table, -, -, rfl⟩ := imageStore_eq_some_iff.mp h
  rfl

/-- An image that is used is the one that was found. -/
theorem source_of_image {source : Source} {store : SectionStore}
    (h : source.path?.bind (imageStore? fs) = some store) : store.source = source := by
  cases source with
  | embedded => cases h
  | override p => exact imageStore_source h

theorem isOverride_of_image {source : Source} {store : SectionStore}
    (h : source.path?.bind (imageStore? fs) = some store) : source.isOverride = true := by
  cases source with
  | embedded => cases h
  | override p => rfl

theorem findExtended_eq_ok {start : UInt64} {found : Option ExtendedHeader}
    (h : findExtended fs file header start = .ok found) :
    (header.hasExtended = true ∧ ∃ extended,
      extendedAt fs file (start + UInt64.ofNat ContainerHeader.byteSize) = .ok extended ∧
      extended.programId = header.programId ∧ found = some extended) ∨
    (header.hasExtended = false ∧ found = none) := by
  unfold findExtended at h
  by_cases hdeclared : header.hasExtended = true
  · rw [if_pos hdeclared] at h
    obtain ⟨extended, hread, hfound⟩ := bind_eq_ok.mp h
    by_cases hid : extended.programId = header.programId
    · rw [hid, bne_self_eq_false, if_neg Bool.false_ne_true] at hfound
      cases hfound
      exact Or.inl ⟨hdeclared, extended, hread, hid, rfl⟩
    · rw [if_pos (bne_iff_ne.mpr hid)] at hfound
      cases hfound
  · rw [if_neg hdeclared] at h
    cases h
    exact Or.inr ⟨(Bool.not_eq_true _).mp hdeclared, rfl⟩

/-- The three ways in which a load finds an ExeFS or none. -/
inductive StoreFound (fs : FileSystem) (image : Path) (file : Handle) (header : ContainerHeader)
    (start : UInt64) : Option SectionStore → Prop
  | image {store : SectionStore} (recorded : Source.ofFile fs image = .override image)
      (read : imageStore? fs image = some store) : StoreFound fs image file header start (some store)
  | embedded {table : SectionTable}
      (noImage : (Source.ofFile fs image).path?.bind (imageStore? fs) = none)
      (declared : header.hasExefs = true)
      (read : tableAt fs file (start + header.exefs.byteOffset) header.exefs.byteSize = .ok table) :
      StoreFound fs image file header start
        (some ⟨file, start + header.exefs.byteOffset, table, .embedded⟩)
  | absent (noImage : (Source.ofFile fs image).path?.bind (imageStore? fs) = none)
      (undeclared : header.hasExefs = false) : StoreFound fs image file header start none

theorem storeFound {start : UInt64} {found : Option SectionStore}
    (h : findStore fs image file header start = .ok found) :
    StoreFound fs image file header start found := by
  unfold findStore at h
  cases himage : (Source.ofFile fs image).path?.bind (imageStore? fs) with
  | some store =>
    rw [himage] at h
    cases h
    by_cases hfile : fs.isFile image = true
    · have hrecorded : Source.ofFile fs image = .override image := by rw [Source.ofFile, if_pos hfile]
      rw [hrecorded] at himage
      exact .image hrecorded himage
    · rw [Source.ofFile, if_neg hfile] at himage
      cases himage
  | none =>
    rw [himage] at h
    dsimp only at h
    by_cases hdeclared : header.hasExefs = true
    · rw [if_pos hdeclared] at h
      obtain ⟨table, htable, hfound⟩ := bind_eq_ok.mp h
      cases hfound
      exact .embedded himage hdeclared htable
    · rw [if_neg hdeclared] at h
      cases h
      exact .absent himage ((Bool.not_eq_true _).mp hdeclared)

/-- A loaded container has an ExeFS exactly if it is noted. -/
theorem Gathered.hasExefs_eq (h : Gathered fs image file header c) :
    c.hasExefs = c.store.isSome := by
  have hfound := storeFound h.store_read
  rw [h.noted.exefs_eq, usesImage, h.header_eq, Option.any_some]
  generalize c.store = store at hfound
  cases hfound with
  | image _ hread => simp [imageStore_source hread, Source.isOverride, Source.path?]
  | embedded _ hsize => simp [hsize]
  | absent _ hsize => simp [hsize]

theorem Gathered.store?_eq (h : Gathered fs image file header c) : c.store? = c.store := by
  rw [store?, h.hasExefs_eq]
  cases c.store with
  | some store => rfl
  | none => rfl

/-! ## How the steps of a load end -/

theorem extendedResult_cases (fs : FileSystem) (file : Handle) (c : Container)
    (h : header.hasExtended = true) :
    (∃ e compressed, extendedResult fs file header c =
      (.error e, { c with isCompressed := compressed })) ∨
    ∃ extended, findExtended fs file header c.offset = .ok (some extended) ∧
      extendedResult fs file header c =
        (.ok (), { c with
          isCompressed := extended.codeSet.isCompressed
          extended := some extended }) := by
  unfold extendedResult findExtended
  rw [if_pos h]
  cases extendedAt fs file (c.offset + UInt64.ofNat ContainerHeader.byteSize) with
  | error e => exact Or.inl ⟨e, c.isCompressed, rfl⟩
  | ok extended =>
    dsimp only [bind, Except.bind]
    by_cases hid : (extended.programId != header.programId) = true
    · rw [if_pos hid]
      exact Or.inl ⟨_, _, rfl⟩
    · rw [if_neg hid, if_neg hid]
      exact Or.inr ⟨extended, rfl, rfl⟩

theorem tableResult_cases (fs : FileSystem) (image : Path) (file : Handle)
    (header : ContainerHeader) (hstore : c.store = none)
    (hsource : c.overrides.exefs = .ofFile fs image) :
    (∃ e place source, tableResult fs file header c =
      (.error e, { c with
        exefsOffset := place
        overrides := { c.overrides with exefs := source } })) ∨
    ∃ store place, findStore fs image file header c.offset = .ok store ∧
      tableResult fs file header c =
        (.ok (), { c with
          store := store
          hasExefs := (sourceOf store).isOverride || c.hasExefs
          exefsOffset := place
          overrides := { c.overrides with exefs := sourceOf store } }) := by
  unfold tableResult findStore
  rw [hsource]
  cases himage : (Source.ofFile fs image).path?.bind (imageStore? fs) with
  | some store =>
    have hrecord : sourceOf (some store) = c.overrides.exefs := by
      rw [hsource]
      exact source_of_image himage
    have himaged : c.overrides.exefs.isOverride = true := by
      rw [hsource]
      exact isOverride_of_image himage
    refine Or.inr ⟨some store, 0, rfl, ?_⟩
    rw [hrecord, himaged, Bool.true_or]
    rfl
  | none =>
    dsimp only
    unfold embeddedResult
    by_cases hexefs : header.hasExefs = true
    · rw [if_pos hexefs, if_pos hexefs]
      dsimp only [bind, Except.bind]
      cases tableAt fs file (c.offset + header.exefs.byteOffset) header.exefs.byteSize with
      | error e => exact Or.inl ⟨e, _, _, rfl⟩
      | ok table => exact Or.inr ⟨_, _, rfl, rfl⟩
    · rw [if_neg hexefs, if_neg hexefs]
      refine Or.inr ⟨none, c.exefsOffset, rfl, ?_⟩
      simp only [hstore, sourceOf, Option.map_none, Option.getD_none, Source.isOverride, Source.path?,
        Option.isSome_none, Bool.false_or]

/-- Nothing of the container has been read but, maybe, its file opened. -/
structure Bare (c : Container) : Prop where
  header_eq : c.header = none
  extended_eq : c.extended = none
  compressed_eq : c.isCompressed = false
  store_eq : c.store = none
  noted : Noted c

theorem Bare.congr (h : Bare c) (stage : Stage) (file : Option Handle) (overrides : OverrideSet)
    (naming : Naming) :
    Bare { c with stage := stage, file := file, overrides := overrides, naming := naming } :=
  ⟨h.header_eq, h.extended_eq, h.compressed_eq, h.store_eq, h.noted.congr _ _ _ _⟩

theorem bare_new : Bare ((new path offset).withNaming naming) :=
  ⟨rfl, rfl, rfl, rfl, .of_store rfl rfl rfl rfl rfl⟩

/-- The steps after the header fail, and leave no ExeFS behind, or have read all parts. -/
theorem sectionsResult_cases (fs : FileSystem) (image : Path) (file : Handle)
    (header : ContainerHeader) (hextended : c.extended = none) (hcompressed : c.isCompressed = false)
    (hstore : c.store = none) (hsource : c.overrides.exefs = .ofFile fs image) :
    (∃ e extended compressed place source,
      (compressed = true → header.hasExtended = true) ∧
      sectionsResult fs file header c =
        (.error e, { c with
          extended := extended
          isCompressed := compressed
          exefsOffset := place
          overrides := { c.overrides with exefs := source } })) ∨
    ∃ extended store place, findExtended fs file header c.offset = .ok extended ∧
      findStore fs image file header c.offset = .ok store ∧
      sectionsResult fs file header c =
        (.ok (), { c with
          extended := extended
          isCompressed := extended.any fun extended => extended.codeSet.isCompressed
          store := store
          hasExefs := (sourceOf store).isOverride || c.hasExefs
          exefsOffset := place
          overrides := { c.overrides with exefs := sourceOf store } }) := by
  unfold sectionsResult
  by_cases hdeclared : header.hasExtended = true
  · rw [if_pos hdeclared]
    rcases extendedResult_cases fs file c hdeclared with ⟨e, compressed, hresult⟩ |
      ⟨extended, hfound, hresult⟩
    · rw [hresult]
      exact Or.inl ⟨e, _, compressed, _, c.overrides.exefs, fun _ => hdeclared, rfl⟩
    · rw [hresult]
      dsimp only
      rcases tableResult_cases fs image file header (c := { c with
          isCompressed := extended.codeSet.isCompressed
          extended := some extended }) hstore hsource with
        ⟨e, place, source, htable⟩ | ⟨store, place, hread, htable⟩
      · rw [htable]
        exact Or.inl ⟨e, _, _, place, source, fun _ => hdeclared, rfl⟩
      · rw [htable]
        exact Or.inr ⟨some extended, store, place, hfound, hread, rfl⟩
  · rw [if_neg hdeclared]
    have hfound : findExtended fs file header c.offset = .ok none := by
      rw [findExtended, if_neg hdeclared]
      rfl
    rcases tableResult_cases fs image file header hstore hsource with
      ⟨e, place, source, htable⟩ | ⟨store, place, hread, htable⟩
    · rw [htable]
      refine Or.inl ⟨e, c.extended, c.isCompressed, place, source, ?_, rfl⟩
      intro h
      rw [hcompressed] at h
      cases h
    · rw [htable]
      refine Or.inr ⟨none, store, place, hfound, hread, ?_⟩
      simp only [hextended, hcompressed, Option.any_none]

/-! ## Forms of containers -/

/-- The forms that a container has between two operations. -/
inductive Formed (c : Container) : Prop
  | untouched (stage_eq : c.stage = .unopened) (file_eq : c.file = none) (bare : Bare c)
  | opened {file : Handle} (stage_eq : c.stage = .opened) (file_eq : c.file = some file)
      (bare : Bare c)
  /-- Its file could not be opened, or held no valid header. -/
  | refused {status : Status} (stage_eq : c.stage = .failed status) (bare : Bare c)
  /-- Its header is valid, but not what follows. -/
  | broken {status : Status} {file : Handle} {header : ContainerHeader}
      (stage_eq : c.stage = .failed status) (file_eq : c.file = some file)
      (header_eq : c.header = some header)
      (magic_eq : header.magic.bytes.toList = containerMagic)
      (extended_of_compressed : c.isCompressed = true → header.hasExtended = true)
      (store_eq : c.store = none) (noted : Noted c)
  | loaded {fs : FileSystem} {image : Path} {file : Handle} {header : ContainerHeader}
      (gathered : Gathered fs image file header c)

/-- The container at a path and an offset, in one of its forms. -/
structure WellFormed (path : Path) (offset : UInt64) (c : Container) : Prop where
  path_eq : c.path = path
  offset_eq : c.offset = offset
  formed : Formed c

/-- The container with these naming conventions and this file, or the error of opening it. If it is
loaded, it was loaded from these files. -/
structure Traced (fs : FileSystem) (path : Path) (offset : UInt64) (naming : Naming)
    (opened : Except ContainerError Handle) (c : Container) : Prop
    extends WellFormed path offset c where
  naming_eq : c.naming = naming
  opened_eq : (openResult fs c).1 = opened
  loadedOn : c.stage = .loaded → ∃ file header, LoadedOn fs file header c

/-- A container that is not loaded was not loaded from any files in particular. -/
theorem WellFormed.traced (h : WellFormed path offset c) (hnaming : c.naming = naming)
    (hopened : (openResult fs c).1 = opened) (hstage : c.stage ≠ .loaded) :
    Traced fs path offset naming opened c :=
  ⟨h, hnaming, hopened, fun hloaded => absurd hloaded hstage⟩

theorem openResult_of_open (h : c.file = some file) : openResult fs c = (.ok file, c) := by
  rw [openResult, h]

/-- The file that a container is given is the one it has, or the one at its path. -/
theorem openResult_eq_ok (h : (openResult fs c).1 = .ok file) :
    c.file = some file ∨ c.file = none ∧ fs.openPath c.path = .ok file := by
  unfold openResult at h
  cases hfile : c.file with
  | some found =>
    rw [hfile] at h
    cases h
    exact Or.inl rfl
  | none =>
    rw [hfile] at h
    cases hopen : fs.openPath c.path with
    | error e =>
      rw [hopen] at h
      cases h
    | ok found =>
      rw [hopen] at h
      cases h
      exact Or.inr ⟨rfl, rfl⟩

theorem openResult_stage (fs : FileSystem) (c : Container) (stage : Stage) :
    (openResult fs { c with stage := stage }).1 = (openResult fs c).1 := by
  unfold openResult
  dsimp only
  cases c.file with
  | some file => rfl
  | none =>
    cases fs.openPath c.path with
    | error e => rfl
    | ok file => rfl

theorem magic_of_headerAt {start : UInt64} (h : headerAt fs file start = .ok header) :
    header.magic.bytes.toList = containerMagic := by
  simp only [headerAt, bind_eq_ok, mapError_eq_ok] at h
  obtain ⟨bytes, -, found, -, _, hvalid, hfound⟩ := h
  cases hfound
  by_cases hmagic : header.magic.bytes.toList = containerMagic
  · exact hmagic
  · rw [ContainerHeader.validate, if_neg hmagic] at hvalid
    cases hvalid

theorem openResult_eq (fs : FileSystem) (c : Container) :
    (∃ e, openResult fs c = (.error e, c)) ∨
      ∃ file stage, openResult fs c = (.ok file, { c with file := some file, stage := stage }) := by
  unfold openResult
  cases hfile : c.file with
  | some file =>
    have hsame : c = { c with file := some file, stage := c.stage } := by rw [← hfile]
    exact Or.inr ⟨file, c.stage, congrArg (Prod.mk _) hsame⟩
  | none =>
    cases fs.openPath c.path with
    | error e => exact Or.inl ⟨.file e, rfl⟩
    | ok file => exact Or.inr ⟨file, .opened, rfl⟩

/-- What a load leaves of a container of which nothing had been read. -/
theorem loadResult_traced (hbare : Bare c) (hpath : c.path = path) (hoffset : c.offset = offset) :
    Traced fs path offset c.naming (openResult fs c).1 (loadResult fs c).2 := by
  unfold loadResult stepsResult
  rcases openResult_eq fs c with ⟨e, hopen⟩ | ⟨file, stage, hopen⟩
  · have hsame := openResult_stage fs c (.failed e.status)
    rw [hopen] at hsame ⊢
    exact WellFormed.traced ⟨hpath, hoffset, .refused rfl (hbare.congr _ _ _ _)⟩ rfl hsame nofun
  · rw [hopen]
    dsimp only
    cases hread : headerAt fs file c.offset with
    | error e =>
      exact WellFormed.traced ⟨hpath, hoffset, .refused rfl (hbare.congr _ _ _ _)⟩ rfl rfl nofun
    | ok header =>
      dsimp only
      rcases sectionsResult_cases fs (c.path.withSuffix c.naming.imageSuffix) file header
          (c := ({ c with file := some file, stage := stage } : Container).validated fs header)
          hbare.extended_eq hbare.compressed_eq hbare.store_eq rfl with
        ⟨e, extended, compressed, place, source, hdeclared, hresult⟩ |
        ⟨extended, store, place, hextended, hstore, hresult⟩
      · rw [hresult]
        exact WellFormed.traced
          ⟨hpath, hoffset, .broken rfl rfl rfl (magic_of_headerAt hread) hdeclared hbare.store_eq
            (.of_store hbare.store_eq rfl rfl rfl rfl)⟩
          rfl rfl nofun
      · rw [hresult]
        have hgathered : Gathered fs (c.path.withSuffix c.naming.imageSuffix) file header
            { c.keepHeader header with
              file := some file
              stage := .loaded
              extended := extended
              isCompressed := extended.any fun extended => extended.codeSet.isCompressed
              store := store
              hasExefs := (sourceOf store).isOverride || header.hasExefs
              exefsOffset := place
              overrides :=
                { OverrideSet.resolve fs c.path c.naming with exefs := sourceOf store } } :=
          ⟨rfl, rfl, rfl, hread, hextended, rfl, hstore, .of_store rfl rfl rfl rfl rfl⟩
        exact ⟨⟨hpath, hoffset, .loaded hgathered⟩, rfl, rfl,
          fun _ => ⟨file, header, hgathered, rfl⟩⟩

/-- A load leaves the container as it is, or brings it to an end of its loading. -/
theorem load_cases (fs : FileSystem) (h : WellFormed path offset c) :
    ∃ outcome next, Runs (load fs) c outcome next ∧
      (next = c ∨ Traced fs path offset c.naming (openResult fs c).1 next) := by
  obtain ⟨hpath, hoffset, hformed⟩ := h
  cases hformed with
  | untouched hstage _ hbare =>
    exact ⟨_, _, load_runs (.inl hstage), Or.inr (loadResult_traced hbare hpath hoffset)⟩
  | opened hstage _ hbare =>
    exact ⟨_, _, load_runs (.inr (.inl hstage)), Or.inr (loadResult_traced hbare hpath hoffset)⟩
  | refused hstage => exact ⟨_, _, load_of_failed hstage, Or.inl rfl⟩
  | broken hstage => exact ⟨_, _, load_of_failed hstage, Or.inl rfl⟩
  | loaded hgathered => exact ⟨_, _, load_of_loaded hgathered.stage_eq, Or.inl rfl⟩

theorem Formed.noted (h : Formed c) : Noted c := by
  cases h with
  | untouched _ _ hbare => exact hbare.noted
  | opened _ _ hbare => exact hbare.noted
  | refused _ hbare => exact hbare.noted
  | broken _ _ _ _ _ _ hnoted => exact hnoted
  | loaded hgathered => exact hgathered.noted

theorem Formed.bare (h : Formed c) (hfile : c.file = none) : Bare c := by
  cases h with
  | untouched _ _ hbare => exact hbare
  | opened _ _ hbare => exact hbare
  | refused _ hbare => exact hbare
  | broken _ hopen =>
    rw [hopen] at hfile
    cases hfile
  | loaded hgathered =>
    rw [hgathered.file_eq] at hfile
    cases hfile

theorem WellFormed.openFile (h : WellFormed path offset c) (hfile : c.file = none) :
    WellFormed path offset { c with file := some file, stage := .opened } :=
  ⟨h.path_eq, h.offset_eq, .opened rfl rfl ((h.formed.bare hfile).congr _ _ _ _)⟩

theorem openFile_wellFormed : Keeps (WellFormed path offset) (openFile fs) :=
  keeps_openFile fun _ _ h hfile _ => h.openFile hfile

theorem openFile_traced : Keeps (Traced fs path offset naming opened) (openFile fs) := by
  refine keeps_openFile fun _ _ h hfile hopen => ?_
  refine (h.toWellFormed.openFile hfile).traced h.naming_eq ?_ nofun
  rw [← h.opened_eq, openResult, openResult, hfile, hopen]

theorem steady_traced : Steady fs (Traced fs path offset naming opened) where
  load := by
    refine .of_runs fun _ hc => ?_
    obtain ⟨outcome, next, hrun, hnext⟩ := load_cases fs hc.toWellFormed
    refine ⟨outcome, next, hrun, ?_⟩
    rw [hc.naming_eq, hc.opened_eq] at hnext
    rcases hnext with rfl | hnext
    · exact hc
    · exact hnext
  reopen _ _ _ := openFile_traced

/-- What override files are known, and by which names, is not part of the form of a container. -/
theorem Formed.congr (h : Formed c) (overrides : OverrideSet) (naming : Naming) :
    Formed { c with overrides := overrides, naming := naming } := by
  cases h with
  | untouched hstage hfile hbare => exact .untouched hstage hfile (hbare.congr _ _ _ _)
  | opened hstage hfile hbare => exact .opened hstage hfile (hbare.congr _ _ _ _)
  | refused hstage hbare => exact .refused hstage (hbare.congr _ _ _ _)
  | broken hstage hfile hheader hmagic hdeclared hstore hnoted =>
    exact .broken hstage hfile hheader hmagic hdeclared hstore (hnoted.congr _ _ _ _)
  | loaded hgathered => exact .loaded (hgathered.congr _ _)

theorem lasting_wellFormed : Lasting fs (WellFormed path offset) where
  load := by
    refine .of_runs fun c hc => ?_
    obtain ⟨outcome, next, hrun, hnext⟩ := load_cases fs hc
    refine ⟨outcome, next, hrun, ?_⟩
    rcases hnext with rfl | hnext
    · exact hc
    · exact hnext.toWellFormed
  reopen _ _ _ := openFile_wellFormed
  overrides c found h := ⟨h.path_eq, h.offset_eq, h.formed.congr found c.naming⟩
  naming c naming h := ⟨h.path_eq, h.offset_eq, h.formed.congr c.overrides naming⟩

/-- The parts of a loaded container stay as they are. -/
theorem openFile_gathered {now : FileSystem} :
    Keeps (Gathered fs image file header) (openFile now) := by
  refine keeps_openFile fun _ opened hc hfile _ => ?_
  rw [hc.file_eq] at hfile
  cases hfile

theorem lasting_gathered {now : FileSystem} : Lasting now (Gathered fs image file header) where
  load := .of_runs fun _ hc => ⟨_, _, load_of_loaded hc.stage_eq, hc⟩
  reopen _ _ _ := openFile_gathered
  overrides c found h := h.congr found c.naming
  naming c naming h := h.congr c.overrides naming

/-! ## Where a container was loaded -/

variable {s : Session} {op : Operation}

theorem wellFormed_runAll (path : Path) (offset : UInt64) (naming : Naming)
    (history : List (FileSystem × Operation)) :
    WellFormed path offset ((Session.begin path offset naming).runAll history).container :=
  keeps_runAll (fun _ => lasting_wellFormed) (fun _ => openFile_wellFormed) history
    ⟨rfl, rfl, .untouched rfl rfl bare_new⟩

/-- An operation that is not quiet loads nothing. -/
theorem stage_run_of_not_quiet (s : Session) (fs : FileSystem) (h : op.isQuiet = false) :
    (s.run fs op).2.container.stage = s.container.stage := by
  have hkeeps : Keeps (fun c => c.stage = s.container.stage) (op.perform fs) := by
    cases op with
    | findOverrides =>
      exact .bind (keeps_findOverrides fun _ _ hstage => hstage) fun _ => .of_pure _
    | useNaming naming => exact .bind (.of_update fun _ hstage => hstage) fun _ => .of_pure _
    | _ => cases h
  exact hkeeps s rfl

/-- A container that an operation loads has its parts from the files that the operation met. -/
theorem loadedOn_run (h : WellFormed path offset s.container) (hbefore : s.container.stage ≠ .loaded)
    (hafter : (s.run fs op).2.container.stage = .loaded) :
    ∃ file header, LoadedOn fs file header (s.run fs op).2.container ∧
      (s.run fs op).2.container.naming = s.container.naming ∧
      (openResult fs s.container).1 = .ok file := by
  cases hquiet : op.isQuiet with
  | true =>
    have hkeeps : Keeps (Traced fs path offset s.container.naming (openResult fs s.container).1)
        (op.perform fs) := steady_traced.perform op hquiet fun _ => openFile_traced
    have htraced := hkeeps s (h.traced rfl rfl hbefore)
    obtain ⟨file, header, hloaded⟩ := htraced.loadedOn hafter
    refine ⟨file, header, hloaded, htraced.naming_eq, ?_⟩
    rw [← htraced.opened_eq]
    exact congrArg Prod.fst (openResult_of_open hloaded.file_eq)
  | false =>
    rw [stage_run_of_not_quiet s fs hquiet] at hafter
    exact absurd hafter hbefore

theorem gathered_runAll (history : List (FileSystem × Operation))
    (h : Gathered fs image file header s.container) :
    Gathered fs image file header (s.runAll history).container :=
  keeps_runAll (fun _ => lasting_gathered) (fun _ => openFile_gathered) history h

/-- A loaded container was loaded at one step of its history, and has its parts from there. -/
theorem exists_load (path : Path) (offset : UInt64) (naming : Naming)
    (history : List (FileSystem × Operation))
    (h : ((Session.begin path offset naming).runAll history).container.stage = .loaded) :
    ∃ before fs op after image file header, history = before ++ (fs, op) :: after ∧
      ((Session.begin path offset naming).runAll before).container.stage ≠ .loaded ∧
      (((Session.begin path offset naming).runAll before).run fs op).2.container.stage = .loaded ∧
      Gathered fs image file header
        ((Session.begin path offset naming).runAll history).container := by
  have hstart : (Session.begin path offset naming).container.stage ≠ .loaded := nofun
  obtain ⟨before, fs, op, after, rfl, hbefore, hafter⟩ :=
    exists_step (P := fun c => c.stage = .loaded) history hstart h
  obtain ⟨file, header, hloaded, -⟩ :=
    loadedOn_run (wellFormed_runAll path offset naming before) hbefore hafter
  have hrest := gathered_runAll after hloaded.toGathered
  rw [runAll_append]
  exact ⟨before, fs, op, after, _, file, header, rfl, hbefore, hafter, hrest⟩

end Container
end Cartridge
