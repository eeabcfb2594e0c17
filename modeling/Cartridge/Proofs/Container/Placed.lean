import Cartridge.Proofs.Container.Answers
import Cartridge.Proofs.Container.Pairing
import Cartridge.Proofs.Container.Records
import Cartridge.Proofs.Storage.Fronted

/-!
# Loading further on in a file

Of two containers one starts its file, and the other is the same with more bytes of the file in
front of it. The steps of loading do the same to both, but for the places in the file, which they
find further on.
-/
namespace Cartridge

/-! ## What is moved -/

/-- Whether the error tells a place in a file, or what became of it. -/
def ContainerError.namesPlace : ContainerError → Bool
  | .file _ | .regionOutOfBounds .. => true
  | _ => false

/-- The same error of a container that is `n` bytes further on in its file: the places in the file
and the size of the file are larger by so much. -/
inductive ContainerError.Moved (n : Nat) : ContainerError → ContainerError → Prop
  | file {e e' : AccessError} (h : e.Moved n e') : Moved n (.file e) (.file e')
  | regionOutOfBounds (what : String) {offset offset' : UInt64} (size : UInt64)
      {fileSize fileSize' : UInt64} (hoffset : offset'.toNat = offset.toNat + n)
      (hsize : fileSize'.toNat = fileSize.toNat + n) :
      Moved n (.regionOutOfBounds what offset size fileSize)
        (.regionOutOfBounds what offset' size fileSize')
  | same {e : ContainerError} (h : e.namesPlace = false) : Moved n e e

theorem ContainerError.Moved.status_eq {n : Nat} {e e' : ContainerError} (h : e.Moved n e') :
    e'.status = e.status := by
  cases h with
  | file => rfl
  | regionOutOfBounds => rfl
  | same => rfl

/-- The same range; one in this file is `n` bytes further on. -/
def RangeMoved (fs moved : FileSystem) (own n : Nat) (r r' : FileRange) : Prop :=
  r.Moved fs moved (if r.file = .file own then n else 0) r'

/-- The same answer of a container that is `n` bytes further on in this file. A range of the file
is so much further on as well. -/
inductive Answer.Moved (fs moved : FileSystem) (own n : Nat) : Answer → Answer → Prop
  | done : Moved fs moved own n .done .done
  | bytes (bytes : Bytes) : Moved fs moved own n (.bytes bytes) (.bytes bytes)
  | programId (id : UInt64) : Moved fs moved own n (.programId id) (.programId id)
  | range {r r' : FileRange} (h : RangeMoved fs moved own n r r') :
      Moved fs moved own n (.range r) (.range r')

/-- The same ExeFS in use; that of the container is further on. -/
def SectionStore.moved (n : Nat) (store : SectionStore) : SectionStore :=
  match store.source with
  | .embedded => { store with base := store.base + UInt64.ofNat n }
  | .override _ => store

@[simp] theorem SectionStore.moved_table (n : Nat) (store : SectionStore) :
    (store.moved n).table = store.table := by
  unfold SectionStore.moved
  split <;> rfl

@[simp] theorem SectionStore.moved_file (n : Nat) (store : SectionStore) :
    (store.moved n).file = store.file := by
  unfold SectionStore.moved
  split <;> rfl

@[simp] theorem SectionStore.moved_source (n : Nat) (store : SectionStore) :
    (store.moved n).source = store.source := by
  unfold SectionStore.moved
  split <;> simp_all

/-- The same container, `n` bytes further on in its file. -/
def Container.moved (n : Nat) (c : Container) : Container :=
  { c with
    offset := c.offset + UInt64.ofNat n
    store := c.store.map (SectionStore.moved n) }

open Procedure

namespace Container

section

variable (n : Nat) (c : Container)

@[simp] theorem moved_naming : (c.moved n).naming = c.naming := rfl

@[simp] theorem moved_stage : (c.moved n).stage = c.stage := rfl

@[simp] theorem moved_overrides : (c.moved n).overrides = c.overrides := rfl

@[simp] theorem moved_header : (c.moved n).header = c.header := rfl

@[simp] theorem moved_hasHeader : (c.moved n).hasHeader = c.hasHeader := rfl

@[simp] theorem moved_hasExtended : (c.moved n).hasExtended = c.hasExtended := rfl

@[simp] theorem moved_hasExefs : (c.moved n).hasExefs = c.hasExefs := rfl

@[simp] theorem moved_hasRomfs : (c.moved n).hasRomfs = c.hasRomfs := rfl

@[simp] theorem moved_isCompressed : (c.moved n).isCompressed = c.isCompressed := rfl

@[simp] theorem moved_offset : (c.moved n).offset = c.offset + UInt64.ofNat n := rfl

@[simp] theorem moved_store : (c.moved n).store = c.store.map (SectionStore.moved n) := rfl

@[simp] theorem moved_store? : (c.moved n).store? = c.store?.map (SectionStore.moved n) := by
  rw [store?, store?, moved_hasExefs, moved_store]
  split
  · rfl
  · rfl

@[simp] theorem moved_romfsRegion : (c.moved n).romfsRegion = c.romfsRegion := rfl

end

variable {fs moved : FileSystem} {own : Nat} {front : List UInt8} {path : Path} {c : Container}

/-! ## Override files -/

/-- The paths at which override files are looked for. -/
def overridePaths (path : Path) (naming : Naming) : List Path :=
  let directory := path.withSuffix naming.directorySuffix
  path.withSuffix naming.imageSuffix :: path.withSuffix naming.romfsSuffix :: directory ::
    naming.files.map fun entry => directory.join entry.fileName

/-- The same override files are found in both file systems. -/
def SameOverrides (fs moved : FileSystem) (path : Path) (naming : Naming) : Prop :=
  ∀ p ∈ overridePaths path naming, fs.SameAt moved p

/-- The paths of the override files that were found. -/
def foundPaths (found : OverrideSet) : List Path :=
  found.exefs.path?.toList ++ (found.romfs.path?.toList ++ found.sections.map Prod.snd)

theorem path?_ofFile {p found : Path} (h : (Source.ofFile fs p).path? = some found) :
    found = p := by
  unfold Source.ofFile at h
  split at h
  · exact (Option.some.inj h).symm
  · cases h

theorem mem_overridePaths {naming : Naming} {p : Path}
    (h : p ∈ foundPaths (.resolve fs path naming)) : p ∈ overridePaths path naming := by
  simp only [foundPaths, OverrideSet.resolve, List.mem_append, Option.mem_toList,
    List.mem_map] at h
  rcases h with himage | hromfs | ⟨entry, hentry, rfl⟩
  · rw [path?_ofFile himage]
    exact List.mem_cons_self
  · rw [path?_ofFile hromfs]
    exact List.mem_cons_of_mem _ List.mem_cons_self
  · unfold OverrideSet.sectionFiles at hentry
    dsimp only at hentry
    split at hentry
    · obtain ⟨file, hfile, rfl⟩ := List.mem_map.mp (List.mem_filter.mp hentry).1
      refine List.mem_cons_of_mem _ (List.mem_cons_of_mem _ (List.mem_cons_of_mem _ ?_))
      exact List.mem_map_of_mem hfile
    · cases hentry

theorem mem_foundPaths_exefs {found : OverrideSet} {p : Path} (hp : found.exefs = .override p) :
    p ∈ foundPaths found := by
  simp [foundPaths, hp, Source.path?]

theorem mem_foundPaths_romfs {found : OverrideSet} {p : Path} (hp : found.romfs = .override p) :
    p ∈ foundPaths found := by
  simp [foundPaths, hp, Source.path?]

theorem mem_foundPaths_section {found : OverrideSet} {name : String} {p : Path}
    (hp : found.section? name = .override p) : p ∈ foundPaths found := by
  have hmem := OverrideSet.mem_of_lookup (OverrideSet.section?_eq_override.mp hp)
  apply List.mem_append_right
  apply List.mem_append_right
  exact List.mem_map_of_mem hmem

theorem resolve_moved {naming : Naming} (hsame : SameOverrides fs moved path naming) :
    OverrideSet.resolve moved path naming = .resolve fs path naming := by
  have himage := (hsame _ List.mem_cons_self).isFile_eq
  have hromfs := (hsame _ (List.mem_cons_of_mem _ List.mem_cons_self)).isFile_eq
  have hdirectory :=
    (hsame _ (List.mem_cons_of_mem _ (List.mem_cons_of_mem _ List.mem_cons_self))).isDirectory_eq
  have hsections : OverrideSet.sectionFiles moved path naming =
      OverrideSet.sectionFiles fs path naming := by
    unfold OverrideSet.sectionFiles
    dsimp only
    rw [hdirectory]
    split
    · refine List.filter_congr fun entry hentry => ?_
      obtain ⟨file, hfile, rfl⟩ := List.mem_map.mp hentry
      refine (hsame _ ?_).isFile_eq
      refine List.mem_cons_of_mem _ (List.mem_cons_of_mem _ (List.mem_cons_of_mem _ ?_))
      exact List.mem_map_of_mem hfile
    · rfl
  simp only [OverrideSet.resolve, Source.ofFile, himage, hromfs, hsections]

theorem imageStore_of_error {p : Path} {e : AccessError} (hopen : fs.openPath p = .error e) :
    imageStore? fs p = none := by
  rw [imageStore?_eq_bind, imageTable?, hopen]
  rfl

theorem tableAt_same {file : Handle} (hsame : fs.SameBehind moved file) (start limit : UInt64) :
    tableAt moved file start limit = tableAt fs file start limit := by
  rw [tableAt, tableAt, hsame.readExactly_eq]

theorem imageStore?_same {p : Path} (hsame : fs.SameAt moved p) :
    imageStore? moved p = imageStore? fs p := by
  cases hopen : fs.openPath p with
  | error e =>
    rw [imageStore_of_error hopen, imageStore_of_error (hsame.openPath_eq.trans hopen)]
  | ok file =>
    have hfile := hsame.same file (mapError_eq_ok.mp hopen)
    rw [imageStore_of_open hopen, imageStore_of_open (hsame.openPath_eq.trans hopen),
      tableAt_same hfile, hfile.sizeOf_eq]

theorem same_of_imageStore {p : Path} {store : SectionStore}
    (himage : imageStore? fs p = some store) (hsame : fs.SameAt moved p) :
    fs.SameBehind moved store.file := by
  obtain ⟨file, table, hopen, -, rfl⟩ := imageStore_eq_some_iff.mp himage
  exact hsame.same file (mapError_eq_ok.mp hopen)

/-! ## Containers at the start of their files -/

/-- Where the ExeFS in use is: in the file of the container at some low place, or an image that can
be used and is the same in both file systems. -/
inductive StoreAt (fs moved : FileSystem) (own : Nat) (store : SectionStore) : Prop
  | embedded (source_eq : store.source = .embedded) (file_eq : store.file = .file own)
      (low : store.base.toNat < 2 ^ 41)
  | image (p : Path) (usable : imageStore? fs p = some store)
      (same : fs.SameBehind moved store.file)

/-- A container at the start of its file. What overrides parts of it is the same in both file
systems. -/
structure Placed (fs moved : FileSystem) (own : Nat) (path : Path) (c : Container) : Prop where
  path_eq : c.path = path
  offset_eq : c.offset = 0
  file_eq : ∀ file, c.file = some file → file = .file own
  naming_same : SameOverrides fs moved path c.naming
  overrides_same : ∀ p ∈ foundPaths c.overrides, fs.SameAt moved p
  store_at : ∀ store, c.store = some store → StoreAt fs moved own store

/-- Of this it does not matter what else has been read. -/
theorem Placed.congr {d : Container} (h : Placed fs moved own path c) (hpath : d.path = c.path)
    (hoffset : d.offset = c.offset) (hnaming : d.naming = c.naming) (hfile : d.file = c.file)
    (hoverrides : d.overrides = c.overrides) (hstore : d.store = c.store) :
    Placed fs moved own path d where
  path_eq := hpath.trans h.path_eq
  offset_eq := hoffset.trans h.offset_eq
  file_eq file hopen := h.file_eq file (hfile.symm.trans hopen)
  naming_same := hnaming ▸ h.naming_same
  overrides_same := hoverrides ▸ h.overrides_same
  store_at store hfound := h.store_at store (hstore.symm.trans hfound)

/-- What two procedures do to a container at the start of its file and to one further on. -/
abbrev Follows {α β : Type} (fs moved : FileSystem) (own : Nat) (path : Path) (n : Nat)
    (V : α → β → Prop) (a : Procedure α) (b : Procedure β) : Prop :=
  Pairs (fun c d => Placed fs moved own path c ∧ d = c.moved n) (ContainerError.Moved n) V a b

section

variable {n : Nat} {ε α : Type} {wrap : ε → ContainerError}

/-- An outcome that does not depend on where the container is. -/
theorem follows_ofExcept (x : Except ε α) (hwrap : ∀ e, (wrap e).namesPlace = false) :
    Follows fs moved own path n Eq (ofExcept wrap x) (ofExcept wrap x) := by
  cases x with
  | ok x => exact .of_pure rfl
  | error e => exact .of_throw (.same (hwrap e))

theorem follows_throw {e : ContainerError} (h : e.namesPlace = false) {V : α → α → Prop} :
    Follows fs moved own path n V (throw e : Procedure α) (throw e) :=
  .of_throw (.same h)

end

/-! ## Loading -/

section

variable {n : Nat}

theorem moved_of_imageStore {p : Path} {store : SectionStore}
    (himage : imageStore? fs p = some store) : store.moved n = store := by
  rw [SectionStore.moved, imageStore_source himage]

theorem follows_findOverrides :
    Follows fs moved own path n Eq (findOverrides fs) (findOverrides moved) := by
  refine .of_runs ?_
  rintro c _ ⟨hc, rfl⟩
  refine ⟨_, _, _, _, findOverrides_runs fs c, findOverrides_runs moved _, .ok rfl,
    ⟨hc.path_eq, hc.offset_eq, hc.file_eq, hc.naming_same, fun p hp => ?_, hc.store_at⟩, ?_⟩
  · have hsearched := mem_overridePaths hp
    rw [hc.path_eq] at hsearched
    exact hc.naming_same p hsearched
  · have hfound := resolve_moved hc.naming_same
    rw [← hc.path_eq] at hfound
    change _ = ({ c with overrides := .resolve fs c.path c.naming } : Container).moved n
    rw [← hfound]
    rfl

theorem follows_noteExtended (extended : ExtendedHeader) :
    Follows fs moved own path n Eq (noteExtended extended) (noteExtended extended) :=
  .of_runs fun _ _ hcd =>
    ⟨_, _, _, _, noteExtended_runs extended, noteExtended_runs extended, .ok rfl, hcd⟩

end

section

variable (h : fs.Fronted moved path own front)
include h

theorem follows_read {start : UInt64} (hstart : start.toNat < 2 ^ 63) (length : Nat) :
    Follows fs moved own path front.length Eq
      (ofExcept .file (fs.readExactly (.file own) start length))
      (ofExcept .file (moved.readExactly (.file own) (start + UInt64.ofNat front.length) length)) :=
  .of_ofExcept (h.readExactly_own hstart length) fun _ _ => .file

theorem follows_openFile :
    Follows fs moved own path front.length (fun file file' => file = .file own ∧ file' = .file own)
      (openFile fs) (openFile moved) := by
  refine .of_runs ?_
  rintro c _ ⟨hc, rfl⟩
  cases hopened : c.file with
  | some file =>
    have hown := hc.file_eq file hopened
    exact ⟨_, _, _, _, openFile_of_open hopened, openFile_of_open hopened, .ok ⟨hown, hown⟩, hc,
      rfl⟩
  | none =>
    have hhere := h.opens
    have hthere := h.opens_moved
    rw [← hc.path_eq] at hhere hthere
    refine ⟨_, _, _, _, openFile_of_ok hopened hhere, openFile_of_ok hopened hthere,
      .ok ⟨rfl, rfl⟩, ⟨hc.path_eq, hc.offset_eq, ?_, hc.naming_same, hc.overrides_same,
        hc.store_at⟩, rfl⟩
    rintro file ⟨⟩
    rfl

theorem follows_readHeader :
    Follows fs moved own path front.length Eq (readHeader fs (.file own))
      (readHeader moved (.file own)) := by
  refine .container_bind ?_
  rintro c _ ⟨hc, rfl⟩
  have hlow : c.offset.toNat < 2 ^ 63 := by
    rw [hc.offset_eq]
    decide
  refine .bind_eq (follows_read h hlow _) fun bytes =>
    .bind_eq (follows_ofExcept _ fun _ => rfl) fun header =>
    .bind_eq (follows_ofExcept _ fun _ => rfl) fun _ => .bind_eq (.of_update ?_) fun _ =>
    .bind_eq (.of_note _ _ _) fun _ => .bind_eq (.of_note _ _ _) fun _ => .of_pure rfl
  rintro c _ ⟨hc, rfl⟩
  exact ⟨hc.congr rfl rfl rfl rfl rfl rfl, rfl⟩

theorem follows_readExtended (header : ContainerHeader) :
    Follows fs moved own path front.length Eq (readExtended fs (.file own) header)
      (readExtended moved (.file own) header) := by
  refine .container_bind ?_
  rintro c _ ⟨hc, rfl⟩
  have hlow : (c.offset + UInt64.ofNat ContainerHeader.byteSize).toNat < 2 ^ 63 := by
    rw [hc.offset_eq]
    decide
  have hread := follows_read h hlow ExtendedHeader.byteSize
  rw [add_right_comm] at hread
  rw [sum_eq_pure, sum_eq_pure, pure_bind, pure_bind]
  refine .bind_eq hread fun bytes => .bind_eq (follows_ofExcept _ fun _ => rfl) fun extended =>
    .bind_eq (.of_update ?_) fun _ => .bind_eq (follows_noteExtended extended) fun _ =>
    .optional (.of_note _ _ _) ?_
  · rintro c _ ⟨hc, rfl⟩
    exact ⟨hc.congr rfl rfl rfl rfl rfl rfl, rfl⟩
  · by_cases hid : (extended.programId != header.programId) = true
    · simp only [hid, if_true]
      exact .bind_eq (.of_note _ _ _) fun _ => .of_throw_bind (.same rfl)
    · simp only [hid, Bool.false_eq_true, if_false]
      refine .of_update ?_
      rintro c _ ⟨hc, rfl⟩
      exact ⟨hc.congr rfl rfl rfl rfl rfl rfl, rfl⟩

theorem follows_readEmbeddedTable (header : ContainerHeader) :
    Follows fs moved own path front.length Eq (readEmbeddedTable fs (.file own) header)
      (readEmbeddedTable moved (.file own) header) := by
  simp only [readEmbeddedTable, unitBytesM_eq, SectionTable.checkBoundsM_eq, sum_eq_pure, pure_bind]
  refine .container_bind ?_
  rintro noted _ ⟨-, rfl⟩
  rw [moved_hasExefs]
  by_cases hexefs : noted.hasExefs = true
  · simp only [hexefs, if_true]
    refine .bind_eq (.of_update ?_) fun _ => .bind_eq (.of_note _ _ _) fun _ =>
      .bind_eq (.of_note _ _ _) fun _ => .container_bind ?_
    · rintro c _ ⟨hc, rfl⟩
      exact ⟨hc.congr rfl rfl rfl rfl rfl rfl, rfl⟩
    rintro c _ ⟨hc, rfl⟩
    have hbase : (c.offset + unitBytes header.exefs.offset).toNat < 2 ^ 41 := by
      rw [hc.offset_eq, UInt64.zero_add]
      exact toNat_unitBytes_lt _
    have hread := follows_read h (Nat.lt_trans hbase (by decide))
      SectionTable.byteSize
    rw [add_right_comm] at hread
    refine .bind_eq hread fun bytes => .bind_eq (follows_ofExcept _ fun _ => rfl) fun table =>
      .bind_eq (follows_ofExcept _ fun _ => rfl) fun _ => .of_update ?_
    rintro d _ ⟨hd, rfl⟩
    refine ⟨⟨hd.path_eq, hd.offset_eq, hd.file_eq, hd.naming_same, hd.overrides_same, ?_⟩, ?_⟩
    · rintro store ⟨⟩
      exact .embedded rfl rfl hbase
    · have hmoved : SectionStore.moved front.length
            ⟨.file own, c.offset + unitBytes header.exefs.offset, table, .embedded⟩ =
          ⟨.file own, (c.moved front.length).offset + unitBytes header.exefs.offset, table,
            .embedded⟩ := by
        rw [SectionStore.moved, add_right_comm]
        rfl
      rw [← hmoved]
      rfl
  · simp only [hexefs, Bool.false_eq_true, if_false]
    exact .of_pure rfl

theorem follows_readTable (header : ContainerHeader) :
    Follows fs moved own path front.length Eq (readTable fs (.file own) header)
      (readTable moved (.file own) header) := by
  unfold readTable
  refine .container_bind ?_
  rintro c _ ⟨hc, rfl⟩
  rw [moved_overrides]
  have hembedded := follows_readEmbeddedTable h header
  cases hsource : c.overrides.exefs with
  | embedded => exact hembedded
  | override image =>
    have hsame := hc.overrides_same image (mem_foundPaths_exefs hsource)
    dsimp only
    rw [hsame.openPath_eq]
    simp only [imageStoreM_eq, imageStore?_same hsame, pure_bind]
    cases himage : imageStore? fs image with
    | some store =>
      have huse : Follows fs moved own path front.length Eq (do
          note .debug s!"Loading ExeFS section from {image.text}"
          update fun c => c.keepImage store) (do
          note .debug s!"Loading ExeFS section from {image.text}"
          update fun c => c.keepImage store) := by
        refine .bind_eq (.of_note _ _ _) fun _ => .of_update ?_
        rintro d _ ⟨hd, rfl⟩
        refine ⟨⟨hd.path_eq, hd.offset_eq, hd.file_eq, hd.naming_same, hd.overrides_same, ?_⟩, ?_⟩
        · rintro found ⟨⟩
          exact .image image himage (same_of_imageStore himage hsame)
        · rw [Container.moved, Container.moved, keepImage, keepImage]
          dsimp only
          rw [Option.map_some, moved_of_imageStore himage]
      cases fs.openPath image with
      | error e => exact .bind_eq (.of_note _ _ _) fun _ => huse
      | ok _ => exact huse
    | none =>
      have hforget : Follows fs moved own path front.length Eq (do
          note .warning s!"Ignoring unreadable ExeFS override {image.text}"
          update fun c => { c with overrides := { c.overrides with exefs := .embedded } }
          readEmbeddedTable fs (.file own) header) (do
          note .warning s!"Ignoring unreadable ExeFS override {image.text}"
          update fun c => { c with overrides := { c.overrides with exefs := .embedded } }
          readEmbeddedTable moved (.file own) header) := by
        refine .bind_eq (.of_note _ _ _) fun _ => .bind_eq (.of_update ?_) fun _ => hembedded
        rintro d _ ⟨hd, rfl⟩
        refine ⟨⟨hd.path_eq, hd.offset_eq, hd.file_eq, hd.naming_same, fun p hp => ?_,
          hd.store_at⟩, rfl⟩
        exact hd.overrides_same p (List.mem_append_right _ hp)
      cases fs.openPath image with
      | error e => exact .bind_eq (.of_note _ _ _) fun _ => hforget
      | ok _ => exact hforget

theorem follows_loadSteps :
    Follows fs moved own path front.length Eq (loadSteps fs) (loadSteps moved) := by
  refine .bind (follows_openFile h) ?_
  rintro _ _ ⟨rfl, rfl⟩
  refine .bind_eq (follows_readHeader h) fun header => .bind_eq (.of_update ?_) fun _ =>
    .bind_eq (follows_findOverrides) fun _ => .container_bind ?_
  · rintro c _ ⟨hc, rfl⟩
    exact ⟨hc.congr rfl rfl rfl rfl rfl rfl, rfl⟩
  · rintro noted _ ⟨-, rfl⟩
    rw [moved_hasExtended]
    exact .optional (follows_readExtended h header) (follows_readTable h header)

theorem follows_load : Follows fs moved own path front.length Eq (load fs) (load moved) := by
  have hstage (stage : Stage) : Follows fs moved own path front.length Eq
      (update fun c => { c with stage := stage }) (update fun c => { c with stage := stage }) := by
    refine .of_update ?_
    rintro c _ ⟨hc, rfl⟩
    exact ⟨hc.congr rfl rfl rfl rfl rfl rfl, rfl⟩
  refine .container_bind ?_
  rintro c _ ⟨hc, rfl⟩
  rw [moved_stage]
  cases c.stage
  case loaded => exact .of_pure rfl
  case failed status => exact follows_throw rfl
  all_goals
    refine .bind (follows_loadSteps h).attempt fun x y hxy => ?_
    cases hxy with
    | ok => exact hstage _
    | error he =>
      dsimp only
      rw [he.status_eq]
      exact .bind_eq (hstage _) fun _ => .of_throw he

theorem follows_ensureHeader :
    Follows fs moved own path front.length Eq (ensureHeader fs) (ensureHeader moved) := by
  refine .bind (follows_load h).attempt fun x y hxy => ?_
  cases hxy with
  | ok => exact .of_pure rfl
  | error he =>
    refine .container_bind ?_
    rintro c _ ⟨hc, rfl⟩
    rw [moved_hasHeader]
    split
    · exact .of_note _ _ _
    · exact .of_throw he

end

end Container

end Cartridge
