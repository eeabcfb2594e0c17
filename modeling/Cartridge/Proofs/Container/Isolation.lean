import Cartridge.Proofs.Container.Relocation
import Cartridge.Proofs.Storage.OneFile

/-!
# Files that override a section

The file that overrides a section concerns no other section. Two file systems that differ in it
alone load the same container, but for what it knows of such files, and all that is read of the
container is the same but for the sections that the conventions give this file.
-/
namespace Cartridge

open Procedure

/-- The same container, which knows of other files for its sections. -/
def Container.withSections (c : Container) (sections : List (String × Path)) : Container :=
  { c with overrides := { c.overrides with sections := sections } }

namespace Container

variable {fs other : FileSystem} {path : Path} {naming : Naming} {c d : Container} {file : Handle}
  {header : ContainerHeader} {name : String} {sections : List (String × Path)}

@[simp] theorem withSections_path : (c.withSections sections).path = c.path := rfl

@[simp] theorem withSections_offset : (c.withSections sections).offset = c.offset := rfl

@[simp] theorem withSections_file : (c.withSections sections).file = c.file := rfl

@[simp] theorem withSections_header : (c.withSections sections).header = c.header := rfl

@[simp] theorem withSections_hasHeader : (c.withSections sections).hasHeader = c.hasHeader := rfl

@[simp] theorem withSections_hasRomfs : (c.withSections sections).hasRomfs = c.hasRomfs := rfl

@[simp] theorem withSections_romfsRegion :
    (c.withSections sections).romfsRegion = c.romfsRegion := rfl

@[simp] theorem withSections_store? : (c.withSections sections).store? = c.store? := rfl

@[simp] theorem withSections_isCompressed :
    (c.withSections sections).isCompressed = c.isCompressed := rfl

@[simp] theorem withSections_exefs :
    (c.withSections sections).overrides.exefs = c.overrides.exefs := rfl

@[simp] theorem withSections_romfs :
    (c.withSections sections).overrides.romfs = c.overrides.romfs := rfl

/-! ## File systems that differ in files of sections -/

/-- The paths of the files that the conventions have for a section. -/
def sectionPaths (path : Path) (naming : Naming) (name : String) : List Path :=
  (naming.files.filter fun entry => entry.name = name).map fun entry =>
    (path.withSuffix naming.directorySuffix).join entry.fileName

/-- Both file systems have the same container and the same files next to it, but maybe in the
directory for sections. -/
structure SameAround (fs other : FileSystem) (path : Path) (naming : Naming) : Prop where
  own : fs.SameAt other path
  image : fs.AlikeAt other (path.withSuffix naming.imageSuffix)
  romfs : fs.AlikeAt other (path.withSuffix naming.romfsSuffix)
  directory : fs.AlikeAt other (path.withSuffix naming.directorySuffix)

/-- All files for this section are the same in both file systems. -/
def Spared (fs other : FileSystem) (path : Path) (naming : Naming) (name : String) : Prop :=
  ∀ p ∈ sectionPaths path naming name, fs.AlikeAt other p

theorem lookup_filter_congr {α β : Type} [BEq α] [LawfulBEq α] {f g : α × β → Bool} {key : α}
    (l : List (α × β)) (h : ∀ entry ∈ l, entry.1 = key → f entry = g entry) :
    (l.filter f).lookup key = (l.filter g).lookup key := by
  induction l with
  | nil => rfl
  | cons entry rest ih =>
    have hrest := ih fun other hother => h other (List.mem_cons_of_mem _ hother)
    by_cases hkey : entry.1 = key
    · have hsame := h entry List.mem_cons_self hkey
      cases hf : f entry with
      | true =>
        rw [List.filter_cons_of_pos hf, List.filter_cons_of_pos (hsame ▸ hf), List.lookup_cons,
          List.lookup_cons, hkey, beq_self_eq_true]
      | false =>
        rw [List.filter_cons_of_neg (by simp [hf]), List.filter_cons_of_neg (by simp [← hsame, hf]),
          hrest]
    · have hskip (t : List (α × β)) : (entry :: t).lookup key = t.lookup key := by
        rw [List.lookup_cons, beq_eq_false_iff_ne.mpr (Ne.symm hkey)]
      rw [List.filter_cons, List.filter_cons]
      split <;> split <;> simp only [hskip, hrest]

theorem mem_sectionPaths {entry : SectionFile} (h : entry ∈ naming.files) :
    (path.withSuffix naming.directorySuffix).join entry.fileName ∈
      sectionPaths path naming entry.name :=
  List.mem_map.mpr ⟨entry, List.mem_filter.mpr ⟨h, decide_eq_true rfl⟩, rfl⟩

/-- The file that is found for a section is the same if all files for it are. -/
theorem lookup_sectionFiles (h : SameAround fs other path naming)
    (hspared : Spared fs other path naming name) :
    (OverrideSet.sectionFiles other path naming).lookup name =
      (OverrideSet.sectionFiles fs path naming).lookup name := by
  unfold OverrideSet.sectionFiles
  dsimp only
  rw [h.directory.isDirectory_eq]
  split
  · refine lookup_filter_congr _ fun pair hpair hname => ?_
    obtain ⟨entry, hentry, rfl⟩ := List.mem_map.mp hpair
    subst hname
    exact (hspared _ (mem_sectionPaths hentry)).isFile_eq
  · rfl

theorem mem_sectionPaths_of_lookup {p : Path}
    (h : (OverrideSet.sectionFiles fs path naming).lookup name = some p) :
    p ∈ sectionPaths path naming name := by
  have hmem := OverrideSet.mem_of_lookup h
  unfold OverrideSet.sectionFiles at hmem
  dsimp only at hmem
  split at hmem
  · obtain ⟨entry, hentry, hsame⟩ := List.mem_map.mp (List.mem_filter.mp hmem).1
    cases hsame
    exact mem_sectionPaths hentry
  · cases hmem

theorem resolve_around (h : SameAround fs other path naming) :
    OverrideSet.resolve other path naming =
      { OverrideSet.resolve fs path naming with
        sections := OverrideSet.sectionFiles other path naming } := by
  simp only [OverrideSet.resolve, Source.ofFile, h.image.isFile_eq, h.romfs.isFile_eq]

/-! ## What is read alike -/

theorem headerAt_same (hsame : fs.SameBehind other file) (start : UInt64) :
    headerAt other file start = headerAt fs file start := by
  rw [headerAt, headerAt, hsame.readExactly_eq]

theorem extendedAt_same (hsame : fs.SameBehind other file) (start : UInt64) :
    extendedAt other file start = extendedAt fs file start := by
  rw [extendedAt, extendedAt, hsame.readExactly_eq]

theorem imageStore?_alike {p : Path} (h : fs.AlikeAt other p) :
    imageStore? other p = imageStore? fs p := by
  rcases h.cases with ⟨opened, hhere, hthere⟩ | ⟨fault, fault', hhere, hthere⟩
  · have hopened := h.same opened hhere
    rw [imageStore_of_open (mapError_eq_ok.mpr hhere),
      imageStore_of_open (mapError_eq_ok.mpr hthere),
      tableAt_same hopened, hopened.sizeOf_eq]
  · have hfails {now : FileSystem} {e : StorageFault} (hopen : now.openHandle p = .error e) :
        imageStore? now p = none :=
      imageStore_of_error (e := .cannotOpen p e) (by rw [FileSystem.openPath, hopen]; rfl)
    rw [hfails hhere, hfails hthere]

/-! ## Twins -/

/-- All that a container holds of its files is the same in both file systems, and so are the files
of the sections that are spared, which it knows by these paths as well. -/
structure Shared (fs other : FileSystem) (path : Path) (naming : Naming) (c : Container)
    (sections : List (String × Path)) : Prop where
  path_eq : c.path = path
  naming_eq : c.naming = naming
  file_same : ∀ file, c.file = some file → fs.SameBehind other file
  store_same : ∀ store, c.store = some store → fs.SameBehind other store.file
  romfs_alike : ∀ p, c.overrides.romfs = .override p → fs.AlikeAt other p
  lookup_eq : ∀ name, Spared fs other path naming name →
    sections.lookup name = c.overrides.sections.lookup name
  section_alike : ∀ name p, Spared fs other path naming name →
    c.overrides.sections.lookup name = some p → fs.AlikeAt other p

/-- Of this it does not matter what else has been read. -/
theorem Shared.congr (h : Shared fs other path naming c sections) (hpath : d.path = c.path)
    (hnaming : d.naming = c.naming) (hfile : d.file = c.file) (hstore : d.store = c.store)
    (hromfs : d.overrides.romfs = c.overrides.romfs)
    (hsections : d.overrides.sections = c.overrides.sections) :
    Shared fs other path naming d sections where
  path_eq := hpath.trans h.path_eq
  naming_eq := hnaming.trans h.naming_eq
  file_same := hfile ▸ h.file_same
  store_same := hstore ▸ h.store_same
  romfs_alike := hromfs ▸ h.romfs_alike
  lookup_eq := hsections ▸ h.lookup_eq
  section_alike := hsections ▸ h.section_alike

/-- The second container is the first one, but for what it knows of files for sections. -/
def Twins (fs other : FileSystem) (path : Path) (naming : Naming) (c d : Container) : Prop :=
  ∃ sections, d = c.withSections sections ∧ Shared fs other path naming c sections

/-- Two procedures that do the same to twins. -/
abbrev Agree {α : Type} (fs other : FileSystem) (path : Path) (naming : Naming)
    (a b : Procedure α) : Prop :=
  Pairs (Twins fs other path naming) Eq Eq a b

/-- The same outcome, and twins. -/
def SameEnd {α : Type} (fs other : FileSystem) (path : Path) (naming : Naming)
    (r r' : Except ContainerError α × Container) : Prop :=
  r'.1 = r.1 ∧ Twins fs other path naming r.2 r'.2

/-- The override files that are found are the same in both, but maybe those of sections. -/
theorem Shared.resolved (h : Shared fs other path naming c sections)
    (haround : SameAround fs other path naming) :
    Twins fs other path naming { c with overrides := .resolve fs c.path c.naming }
      { c.withSections sections with overrides := .resolve other c.path c.naming } := by
  obtain rfl := h.path_eq
  obtain rfl := h.naming_eq
  refine ⟨OverrideSet.sectionFiles other c.path c.naming, ?_, rfl, rfl, h.file_same, h.store_same,
    fun p hp => ?_, fun name => lookup_sectionFiles haround,
    fun name p hspared hp => hspared p (mem_sectionPaths_of_lookup hp)⟩
  · rw [resolve_around haround]
    rfl
  · have hfound : (OverrideSet.resolve fs c.path c.naming).romfs.path? = some p :=
      congrArg Source.path? hp
    rw [path?_ofFile hfound]
    exact haround.romfs

theorem Shared.validated (h : Shared fs other path naming c sections)
    (haround : SameAround fs other path naming) (header : ContainerHeader) :
    Twins fs other path naming (c.validated fs header)
      ((c.withSections sections).validated other header) :=
  Shared.resolved (c := { c.keepHeader header with stage := .headerValidated })
    (h.congr rfl rfl rfl rfl rfl rfl) haround

/-! ## Loading -/

section

variable (htwins : Twins fs other path naming c d)
include htwins

theorem extendedResult_twins (hfile : fs.SameBehind other file) (header : ContainerHeader) :
    SameEnd fs other path naming (extendedResult fs file header c)
      (extendedResult other file header d) := by
  obtain ⟨sections, rfl, h⟩ := htwins
  unfold extendedResult
  rw [extendedAt_same hfile, withSections_offset]
  cases extendedAt fs file (c.offset + UInt64.ofNat ContainerHeader.byteSize) with
  | error e => exact ⟨rfl, sections, rfl, h⟩
  | ok extended =>
    dsimp only
    split
    · exact ⟨rfl, sections, rfl, h.congr rfl rfl rfl rfl rfl rfl⟩
    · exact ⟨rfl, sections, rfl, h.congr rfl rfl rfl rfl rfl rfl⟩

theorem embeddedResult_twins (hfile : fs.SameBehind other file) (header : ContainerHeader) :
    SameEnd fs other path naming (embeddedResult fs file header c)
      (embeddedResult other file header d) := by
  obtain ⟨sections, rfl, h⟩ := htwins
  unfold embeddedResult
  split
  · dsimp only
    rw [tableAt_same hfile, withSections_offset]
    cases tableAt fs file (c.offset + header.exefs.byteOffset) header.exefs.byteSize with
    | error e => exact ⟨rfl, sections, rfl, h.congr rfl rfl rfl rfl rfl rfl⟩
    | ok table =>
      refine ⟨rfl, sections, rfl, h.path_eq, h.naming_eq, h.file_same, ?_, h.romfs_alike,
        h.lookup_eq, h.section_alike⟩
      rintro store ⟨⟩
      exact hfile
  · exact ⟨rfl, sections, rfl, h⟩

/-- Whether an image is used does not depend on files of sections. -/
theorem tableResult_twins (hfile : fs.SameBehind other file) (header : ContainerHeader)
    (himage : ∀ p, c.overrides.exefs = .override p → fs.AlikeAt other p) :
    SameEnd fs other path naming (tableResult fs file header c)
      (tableResult other file header d) := by
  obtain ⟨sections, rfl, h⟩ := htwins
  have hstore : (c.withSections sections).overrides.exefs.path?.bind (imageStore? other) =
      c.overrides.exefs.path?.bind (imageStore? fs) := by
    show c.overrides.exefs.path?.bind _ = _
    cases hsource : c.overrides.exefs with
    | embedded => rfl
    | override p => exact imageStore?_alike (himage p hsource)
  unfold tableResult
  rw [hstore]
  cases hfound : c.overrides.exefs.path?.bind (imageStore? fs) with
  | some store =>
    refine ⟨rfl, sections, rfl, h.path_eq, h.naming_eq, h.file_same, ?_, h.romfs_alike,
      h.lookup_eq, h.section_alike⟩
    rintro _ ⟨⟩
    cases hsource : c.overrides.exefs with
    | embedded =>
      rw [hsource] at hfound
      cases hfound
    | override p =>
      rw [hsource] at hfound
      obtain ⟨opened, table, hopen, -, rfl⟩ := imageStore_eq_some_iff.mp hfound
      exact (himage p hsource).same opened (mapError_eq_ok.mp hopen)
  | none =>
    have hforgotten : Twins fs other path naming
        { c with overrides := { c.overrides with exefs := .embedded } }
        { c.withSections sections with
          overrides := { (c.withSections sections).overrides with exefs := .embedded } } :=
      ⟨sections, rfl, h.congr rfl rfl rfl rfl rfl rfl⟩
    exact embeddedResult_twins hforgotten hfile header

theorem sectionsResult_twins (hfile : fs.SameBehind other file) (header : ContainerHeader)
    (himage : ∀ p, c.overrides.exefs = .override p → fs.AlikeAt other p) :
    SameEnd fs other path naming (sectionsResult fs file header c)
      (sectionsResult other file header d) := by
  unfold sectionsResult
  split
  · have hextended := extendedResult_twins htwins hfile header
    have hkept := extendedResult_overrides fs file header c
    cases hhere : extendedResult fs file header c with
    | mk outcome next =>
      cases hthere : extendedResult other file header d with
      | mk outcome' next' =>
        rw [hhere, hthere] at hextended
        rw [hhere] at hkept
        obtain ⟨houtcome, hnext⟩ := hextended
        dsimp only at houtcome hnext
        subst houtcome
        cases outcome' with
        | error e => exact ⟨rfl, hnext⟩
        | ok _ => exact tableResult_twins hnext hfile header (hkept ▸ himage)
  · exact tableResult_twins htwins hfile header himage

theorem openResult_twins (haround : SameAround fs other path naming) :
    SameEnd fs other path naming (openResult fs c) (openResult other d) ∧
      ∀ file, (openResult fs c).1 = .ok file → fs.SameBehind other file := by
  obtain ⟨sections, rfl, h⟩ := htwins
  unfold openResult
  rw [withSections_file, withSections_path, h.path_eq, haround.own.openPath_eq]
  cases hopened : c.file with
  | some file =>
    refine ⟨⟨rfl, sections, rfl, h⟩, ?_⟩
    rintro _ ⟨⟩
    exact h.file_same file hopened
  | none =>
    cases hopen : fs.openPath path with
    | error e => exact ⟨⟨rfl, sections, rfl, h⟩, nofun⟩
    | ok file =>
      have hsame := haround.own.same file (mapError_eq_ok.mp hopen)
      refine ⟨⟨rfl, sections, rfl, rfl, h.naming_eq, ?_, h.store_same, h.romfs_alike, h.lookup_eq,
        h.section_alike⟩, ?_⟩
      · rintro _ ⟨⟩
        exact hsame
      · rintro _ ⟨⟩
        exact hsame

theorem stepsResult_twins (haround : SameAround fs other path naming) :
    SameEnd fs other path naming (stepsResult fs c) (stepsResult other d) := by
  obtain ⟨hopened, hfile⟩ := openResult_twins htwins haround
  unfold stepsResult
  cases hhere : openResult fs c with
  | mk outcome next =>
    cases hthere : openResult other d with
    | mk outcome' next' =>
      rw [hhere, hthere] at hopened
      rw [hhere] at hfile
      obtain ⟨houtcome, sections, hnext, h⟩ := hopened
      dsimp only at houtcome hnext h
      subst houtcome hnext
      cases outcome' with
      | error e => exact ⟨rfl, sections, rfl, h⟩
      | ok file =>
        have hsame := hfile file rfl
        dsimp only
        rw [headerAt_same hsame, withSections_offset]
        cases headerAt fs file next.offset with
        | error e => exact ⟨rfl, sections, rfl, h⟩
        | ok header =>
          have himage : ∀ p, (OverrideSet.resolve fs next.path next.naming).exefs = .override p →
              fs.AlikeAt other p := by
            intro p hp
            have hfound : (OverrideSet.resolve fs next.path next.naming).exefs.path? = some p :=
              congrArg Source.path? hp
            rw [path?_ofFile hfound, h.path_eq, h.naming_eq]
            exact haround.image
          exact sectionsResult_twins (h.validated haround header) hsame header himage

theorem loadResult_twins (haround : SameAround fs other path naming) :
    SameEnd fs other path naming (loadResult fs c) (loadResult other d) := by
  obtain ⟨houtcome, sections, hnext, h⟩ := stepsResult_twins htwins haround
  refine ⟨houtcome, sections, ?_, h.congr rfl rfl rfl rfl rfl rfl⟩
  unfold loadResult
  rw [houtcome, hnext]
  rfl

end

section

variable (haround : SameAround fs other path naming)
include haround

theorem agree_load : Agree fs other path naming (load fs) (load other) := by
  refine .of_runs fun c d htwins => ?_
  have hstage : d.stage = c.stage := by
    obtain ⟨sections, rfl, -⟩ := htwins
    rfl
  have hresult (h : c.stage = .unopened ∨ c.stage = .opened ∨ c.stage = .headerValidated) :
      ∃ x y c' d', Runs (load fs) c x c' ∧ Runs (load other) d y d' ∧ Matches Eq Eq x y ∧
        Twins fs other path naming c' d' := by
    obtain ⟨houtcome, hnext⟩ := loadResult_twins htwins haround
    exact ⟨_, _, _, _, load_runs h, load_runs (hstage ▸ h), Matches.eq_iff.mpr houtcome.symm, hnext⟩
  cases hcase : c.stage with
  | unopened => exact hresult (.inl hcase)
  | opened => exact hresult (.inr (.inl hcase))
  | headerValidated => exact hresult (.inr (.inr hcase))
  | loaded =>
    exact ⟨_, _, _, _, load_of_loaded hcase, load_of_loaded (hstage.trans hcase), .ok rfl, htwins⟩
  | failed status =>
    exact ⟨_, _, _, _, load_of_failed hcase, load_of_failed (hstage.trans hcase), .error rfl,
      htwins⟩

/-- The file of the container is opened in both, and it is the same. -/
theorem pairs_openFile :
    Pairs (Twins fs other path naming) Eq
      (fun file file' => file' = file ∧ fs.SameBehind other file)
      (openFile fs) (openFile other) := by
  apply Pairs.of_runs
  intro c d htwins
  obtain ⟨⟨houtcome, hnext⟩, hsame⟩ := openResult_twins htwins haround
  refine ⟨_, _, _, _, openFile_runs fs c, openFile_runs other d, ?_, hnext⟩
  rw [houtcome]
  cases hopened : (openResult fs c).1 with
  | ok file => exact .ok ⟨rfl, hsame file hopened⟩
  | error e => exact .error rfl

theorem agree_findOverrides :
    Agree fs other path naming (findOverrides fs) (findOverrides other) := by
  refine .of_runs ?_
  rintro c _ ⟨sections, rfl, h⟩
  exact ⟨_, _, _, _, findOverrides_runs fs c, findOverrides_runs other _, .ok rfl,
    h.resolved haround⟩

theorem agree_ensureHeader :
    Agree fs other path naming (ensureHeader fs) (ensureHeader other) := by
  refine .bind (agree_load haround).attempt fun x y hxy => ?_
  cases hxy with
  | ok => exact .of_pure rfl
  | error he =>
    refine .container_bind ?_
    rintro c _ ⟨sections, rfl, -⟩
    cases he
    rw [withSections_hasHeader]
    cases c.hasHeader with
    | true => exact .of_note _ _ _
    | false => exact .of_throw rfl

end

/-! ## Reading -/

section

variable (haround : SameAround fs other path naming)
include haround

theorem agree_readOverrideSection (hspared : Spared fs other path naming name) :
    Agree fs other path naming (readOverrideSection fs name) (readOverrideSection other name) := by
  refine .bind_eq (agree_load haround) fun _ => .container_bind ?_
  rintro c _ ⟨sections, rfl, h⟩
  refine .optional (.of_throw rfl) ?_
  have hsource : (c.withSections sections).overrides.section? name = c.overrides.section? name := by
    unfold OverrideSet.section? withSections
    dsimp only
    rw [h.lookup_eq name hspared]
  rw [hsource]
  cases hlookup : c.overrides.sections.lookup name with
  | none =>
    simp only [OverrideSet.section?, hlookup]
    exact .of_throw rfl
  | some p =>
    simp only [OverrideSet.section?, hlookup,
      (h.section_alike name p hspared hlookup).wholeFile?_eq]
    cases fs.wholeFile? p with
    | some bytes => exact .bind_eq (.of_note _ _ _) fun _ => .of_pure rfl
    | none => exact .bind_eq (.of_note _ _ _) fun _ => .of_throw rfl

theorem agree_readLogo (region : Region) :
    Agree fs other path naming (readLogo fs region) (readLogo other region) := by
  refine .bind (pairs_openFile haround) ?_
  rintro _ file ⟨rfl, hsame⟩
  refine .container_bind ?_
  rintro c _ ⟨sections, rfl, -⟩
  simp only [withSections_offset, unitBytesM_eq, sum_eq_pure, pure_bind, readRegion_same hsame]
  cases readRegion fs file (c.offset + unitBytes region.offset) (unitBytes region.size)
    "logo region" with
  | ok bytes => exact .of_pure rfl
  | error e => exact .bind_eq (.of_note _ _ _) fun _ => .of_throw rfl

omit haround in
theorem agree_readStoredSection (name : String) :
    Agree fs other path naming (readStoredSection fs name) (readStoredSection other name) := by
  apply Pairs.of_runs
  rintro c _ ⟨sections, rfl, h⟩
  refine ⟨_, _, _, _, readStoredSection_runs fs c name, readStoredSection_runs other _ name, ?_,
    sections, rfl, h⟩
  apply Matches.eq_iff.mpr
  cases hstore : c.store? with
  | none => simp [storedAnswer, hstore]
  | some store =>
    simp [storedAnswer, hstore, readRegion_same (h.store_same store (store_of_store? hstore))]

theorem agree_readSection (hspared : Spared fs other path naming name) :
    Agree fs other path naming (readSection fs name) (readSection other name) := by
  have hstored : Agree fs other path naming (readStoredSection fs name)
      (readStoredSection other name) := agree_readStoredSection name
  refine .bind_eq (agree_load haround) fun _ =>
    .bind (agree_readOverrideSection haround hspared).attempt fun x y hxy => ?_
  cases hxy with
  | ok hbytes => exact .of_pure hbytes
  | error he =>
    cases he
    refine .optional (.of_throw rfl) (.container_bind ?_)
    rintro c _ ⟨sections, rfl, -⟩
    rw [withSections_exefs, withSections_header]
    by_cases hlogo : (name = logoSection && !c.overrides.exefs.isOverride) = true
    · rw [if_pos hlogo, if_pos hlogo]
      cases c.header with
      | none => exact .bind_eq (.of_note _ _ _) fun _ => hstored
      | some header =>
        dsimp only
        cases header.logo.isPresent with
        | true => exact agree_readLogo haround header.logo
        | false => exact .bind_eq (.of_note _ _ _) fun _ => hstored
    · rw [if_neg hlogo, if_neg hlogo]
      exact hstored

/-- The RomFS that overrides is a file of its own, and no section's. -/
theorem agree_locateOverrideRomfs :
    Agree fs other path naming (locateOverrideRomfs fs) (locateOverrideRomfs other) := by
  refine .bind_eq (agree_ensureHeader haround) fun _ => .container_bind ?_
  rintro c _ ⟨sections, rfl, h⟩
  rw [withSections_romfs]
  cases hromfs : c.overrides.romfs with
  | embedded => exact .of_throw rfl
  | override p =>
    have halike := h.romfs_alike p hromfs
    dsimp only
    rcases halike.cases with ⟨file, hhere, hthere⟩ | ⟨fault, fault', hhere, hthere⟩
    · have hsize := (halike.same file hhere).sizeOf_eq
      rw [FileSystem.openPath, FileSystem.openPath, hhere, hthere]
      refine .bind_eq (.of_note _ _ _) fun _ => .of_pure ?_
      rw [hsize]
    · rw [FileSystem.openPath, FileSystem.openPath, hhere, hthere]
      exact .bind_eq (.of_note _ _ _) fun _ => .of_throw rfl

theorem agree_locateEmbeddedRomfs :
    Agree fs other path naming (locateEmbeddedRomfs fs) (locateEmbeddedRomfs other) := by
  refine .container_bind ?_
  rintro c _ ⟨sections, rfl, -⟩
  simp only [withSections_hasRomfs, withSections_offset, withSections_romfsRegion, unitBytesM_eq,
    sum_eq_pure, pure_bind]
  cases c.hasRomfs with
  | false => exact .bind_eq (.of_note _ _ _) fun _ => .of_throw rfl
  | true =>
    refine .bind_eq (.of_note _ _ _) fun _ => .bind_eq (.of_note _ _ _) fun _ =>
      .bind (pairs_openFile haround) ?_
    rintro file _ ⟨rfl, -⟩
    exact .of_pure rfl

theorem agree_locateRomfs :
    Agree fs other path naming (locateRomfs fs) (locateRomfs other) := by
  refine .bind_eq (agree_ensureHeader haround) fun _ =>
    .bind (agree_locateOverrideRomfs haround).attempt fun x y hxy => ?_
  cases hxy with
  | ok hrange => exact .of_pure hrange
  | error => exact agree_locateEmbeddedRomfs haround

theorem agree_readProgramId :
    Agree fs other path naming (readProgramId fs) (readProgramId other) := by
  refine .bind_eq (agree_ensureHeader haround) fun _ => .container_bind ?_
  rintro c _ ⟨sections, rfl, -⟩
  rw [withSections_header]
  cases c.header with
  | none => exact .of_pure rfl
  | some header => exact .of_pure rfl

/-! ## Histories -/

/-- The operation keeps the conventions, and reads no section whose files may differ. -/
def Untouched (fs other : FileSystem) (path : Path) (naming : Naming) : Operation → Prop
  | .useNaming _ => False
  | .readSection name | .readOverrideSection name => Spared fs other path naming name
  | _ => True

theorem agree_perform (op : Operation) (hop : Untouched fs other path naming op) :
    Agree fs other path naming (op.perform fs) (op.perform other) := by
  cases op with
  | openFile =>
    exact .bind_eq (.bind (pairs_openFile haround) fun _ _ _ => .of_pure rfl) fun _ => .of_pure rfl
  | load => exact .bind_eq (agree_load haround) fun _ => .of_pure rfl
  | findOverrides => exact .bind_eq (agree_findOverrides haround) fun _ => .of_pure rfl
  | useNaming _ => cases hop
  | readSection name => exact .bind_eq (agree_readSection haround hop) fun _ => .of_pure rfl
  | readOverrideSection name =>
    exact .bind_eq (agree_readOverrideSection haround hop) fun _ => .of_pure rfl
  | locateRomfs => exact .bind_eq (agree_locateRomfs haround) fun _ => .of_pure rfl
  | locateOverrideRomfs => exact .bind_eq (agree_locateOverrideRomfs haround) fun _ => .of_pure rfl
  | readProgramId => exact .bind_eq (agree_readProgramId haround) fun _ => .of_pure rfl

theorem agree_runAll (ops : List Operation) (hops : ∀ op ∈ ops, Untouched fs other path naming op)
    {s t : Session} (hst : Twins fs other path naming s.container t.container) :
    s.outcomes (ops.map fun op => (fs, op)) = t.outcomes (ops.map fun op => (other, op)) ∧
    Twins fs other path naming (s.runAll (ops.map fun op => (fs, op))).container
      (t.runAll (ops.map fun op => (other, op))).container := by
  induction ops generalizing s t with
  | nil => exact ⟨rfl, hst⟩
  | cons op rest ih =>
    obtain ⟨houtcome, hnext⟩ := agree_perform haround op (hops op List.mem_cons_self) s t hst
    obtain ⟨houtcomes, hlast⟩ := ih (fun next hin => hops next (List.mem_cons_of_mem _ hin)) hnext
    exact ⟨List.cons_eq_cons.mpr ⟨Matches.eq_iff.mp houtcome, houtcomes⟩, hlast⟩

end

/-! ## One file -/

section

variable {place : List String}

theorem sameAround_of_sameBeside (h : FileSystem.SameBeside place fs other)
    (hdirectory : fs.isDirectory (path.withSuffix naming.directorySuffix) = true)
    (hown : fs.placeOf path ≠ place)
    (himage : fs.placeOf (path.withSuffix naming.imageSuffix) ≠ place)
    (hromfs : fs.placeOf (path.withSuffix naming.romfsSuffix) ≠ place) :
    SameAround fs other path naming where
  own := h.sameAt_of_directory hdirectory hown
  image := h.alikeAt himage
  romfs := h.alikeAt hromfs
  directory := by
    apply h.alikeAt
    have hopen := FileSystem.isDirectory_iff.mp hdirectory
    exact h.ne_of_directory (FileSystem.handleAt?_of_openHandle hopen)

/-- A file for sections that is at another place is the same. -/
theorem spared_of_sameBeside (h : FileSystem.SameBeside place fs other)
    (hfiles : ∀ entry ∈ naming.files, entry.name = name →
      fs.placeOf ((path.withSuffix naming.directorySuffix).join entry.fileName) ≠ place) :
    Spared fs other path naming name := by
  intro p hp
  obtain ⟨entry, hentry, rfl⟩ := List.mem_map.mp hp
  obtain ⟨hmem, hname⟩ := List.mem_filter.mp hentry
  exact h.alikeAt (hfiles entry hmem (of_decide_eq_true hname))

/-- One file at some place, in an override directory that exists, may differ or be missing. Unless it
is the container, its image or its RomFS, no operation on a fresh container tells the difference, but
for a read of a section that has the file by the conventions. The container is left the same, but for
the files of sections that it knows of. -/
theorem outcomes_of_sameBeside (h : FileSystem.SameBeside place fs other) (path : Path)
    (offset : UInt64) (naming : Naming)
    (hdirectory : fs.isDirectory (path.withSuffix naming.directorySuffix) = true)
    (hown : fs.placeOf path ≠ place)
    (himage : fs.placeOf (path.withSuffix naming.imageSuffix) ≠ place)
    (hromfs : fs.placeOf (path.withSuffix naming.romfsSuffix) ≠ place)
    (ops : List Operation) (hconventions : ∀ used, Operation.useNaming used ∉ ops)
    (hnames : ∀ name, .readSection name ∈ ops ∨ .readOverrideSection name ∈ ops →
      ∀ entry ∈ naming.files, entry.name = name →
        fs.placeOf ((path.withSuffix naming.directorySuffix).join entry.fileName) ≠ place) :
    let fresh := Session.begin path offset naming
    let here := ops.map fun op => (fs, op)
    let there := ops.map fun op => (other, op)
    fresh.outcomes here = fresh.outcomes there ∧
    ∃ sections, (fresh.runAll there).container = (fresh.runAll here).container.withSections
      sections := by
  intro fresh here there
  have haround := sameAround_of_sameBeside h hdirectory hown himage hromfs
  have htwins : Twins fs other path naming fresh.container fresh.container :=
    ⟨[], rfl, rfl, rfl, nofun, nofun, nofun, fun _ _ => rfl, nofun⟩
  have hops : ∀ op ∈ ops, Untouched fs other path naming op := by
    intro op hop
    cases op with
    | useNaming used => exact absurd hop (hconventions used)
    | readSection name => exact spared_of_sameBeside h (hnames name (.inl hop))
    | readOverrideSection name => exact spared_of_sameBeside h (hnames name (.inr hop))
    | _ => trivial
  obtain ⟨houtcomes, sections, hlast, -⟩ := agree_runAll haround ops hops htwins
  exact ⟨houtcomes, sections, hlast⟩

end

/-- A container with an icon, and a directory in which a file overrides it. -/
def withIcon : FileSystem where
  contents := #[(containerOf (exefsOf (utf8 "icon") (utf8 "EMBD"))).toArray, (utf8 "ICON").toArray]
  entries := [(["game.cxi"], .file 0), (["game.cxi.exefsdir"], .directory),
    (["game.cxi.exefsdir", "icon.icn"], .file 1)]
  workingDirectory := []

/-- The same with an empty directory. -/
def withoutIcon : FileSystem :=
  { withIcon with entries := [(["game.cxi"], .file 0), (["game.cxi.exefsdir"], .directory)] }

theorem sameBeside_icon :
    FileSystem.SameBeside ["game.cxi.exefsdir", "icon.icn"] withIcon withoutIcon where
  start_eq := rfl
  entries_eq := by
    intro p hp
    have hother : (p == ["game.cxi.exefsdir", "icon.icn"]) = false := beq_eq_false_iff_ne.mpr hp
    simp [FileSystem.handleAt?, withIcon, withoutIcon, List.lookup_cons, hother]
  no_directory := by decide +kernel
  no_directory_other := by decide +kernel
  bytes_eq := fun _ _ _ _ => rfl

/-- Whether the icon is overridden is not seen by what does not read the icon. -/
theorem outcomes_of_sameBeside_icon :
    let ops : List Operation := [.load, .readSection "banner", .locateRomfs, .readProgramId]
    let fresh := Session.begin ⟨"game.cxi"⟩ 0 .standard
    FileSystem.SameBeside ["game.cxi.exefsdir", "icon.icn"] withIcon withoutIcon ∧
    withIcon.isDirectory ⟨"game.cxi.exefsdir"⟩ = true ∧
    fresh.outcomes (ops.map fun op => (withIcon, op)) =
      fresh.outcomes (ops.map fun op => (withoutIcon, op)) := by
  intro ops fresh
  have hdirectory : withIcon.isDirectory ⟨"game.cxi.exefsdir"⟩ = true := by decide +kernel
  have hbanner : ∀ entry ∈ Naming.standard.files, entry.name = "banner" →
      withIcon.placeOf ((Path.withSuffix ⟨"game.cxi"⟩ ".exefsdir").join entry.fileName) ≠
        ["game.cxi.exefsdir", "icon.icn"] := by decide +kernel
  refine ⟨sameBeside_icon, hdirectory, ?_⟩
  apply (outcomes_of_sameBeside sameBeside_icon ⟨"game.cxi"⟩ 0 .standard hdirectory
    (by decide +kernel) (by decide +kernel) (by decide +kernel) ops ?_ ?_).1
  · intro used hused
    simp [ops] at hused
  · intro name hname
    simp only [ops, List.mem_cons, List.not_mem_nil, or_false, reduceCtorEq, false_or,
      Operation.readSection.injEq] at hname
    subst hname
    exact hbanner

end Container

end Cartridge
