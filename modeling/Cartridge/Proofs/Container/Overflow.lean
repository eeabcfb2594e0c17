import Cartridge.Proofs.Boot.Record
import Cartridge.Proofs.Container.Checked

/-!
# No overflow

An offset may be any number of 64 bits, and so may be what a header makes of it. No sum of them
overflows: nothing is added to an offset before a header was read there, and nothing can be read at
2^63 and above; the places in a header are below that. What is handed out of a container ends below
2^64, and stays readable without an overflow when the container is gone.
-/
namespace Cartridge

open Procedure

namespace Container

variable {fs : FileSystem} {file : Handle} {header : ContainerHeader} {c : Container}

/-! ## Offsets that were read from -/

/-- Where a header was read, and where a section table was, is in the lower half of the numbers. -/
structure Low (c : Container) : Prop where
  offset_lt : c.header.isSome ∨ c.hasRomfs = true → c.offset.toNat < 2 ^ 63
  base_lt : ∀ store, c.store = some store → store.base.toNat < 2 ^ 63

theorem offset_lt_of_headerAt {start : UInt64} (h : headerAt fs file start = .ok header) :
    start.toNat < 2 ^ 63 := by
  obtain ⟨_, -, hread, -⟩ := headerAt_eq_ok h
  exact hread.1

theorem base_lt_of_imageStore {path : Path} {store : SectionStore}
    (h : imageStore? fs path = some store) : store.base.toNat < 2 ^ 63 := by
  obtain ⟨_, _, -, -, rfl⟩ := imageStore_eq_some_iff.mp h
  exact Nat.two_pow_pos 63

theorem extendedResult_store (fs : FileSystem) (file : Handle) (header : ContainerHeader)
    (c : Container) : (extendedResult fs file header c).2.store = c.store := by
  unfold extendedResult
  split
  · rfl
  · split <;> rfl

theorem low_embeddedResult (hoffset : c.offset.toNat < 2 ^ 63)
    (hbase : ∀ store, c.store = some store → store.base.toNat < 2 ^ 63) :
    Low (embeddedResult fs file header c).2 := by
  unfold embeddedResult
  dsimp only
  split
  · cases htable : tableAt fs file (c.offset + header.exefs.byteOffset) header.exefs.byteSize with
    | error e => exact ⟨fun _ => hoffset, hbase⟩
    | ok table =>
      refine ⟨fun _ => hoffset, fun store hstore => ?_⟩
      cases hstore
      exact (readable_of_tableAt htable).1
  · exact ⟨fun _ => hoffset, hbase⟩

theorem low_tableResult (hoffset : c.offset.toNat < 2 ^ 63)
    (hbase : ∀ store, c.store = some store → store.base.toNat < 2 ^ 63) :
    Low (tableResult fs file header c).2 := by
  unfold tableResult
  cases himage : c.overrides.exefs.path?.bind (imageStore? fs) with
  | none => exact low_embeddedResult hoffset hbase
  | some found =>
    refine ⟨fun _ => hoffset, fun store hstore => ?_⟩
    cases hstore
    obtain ⟨path, -, hpath⟩ := Option.bind_eq_some_iff.mp himage
    exact base_lt_of_imageStore hpath

theorem low_sectionsResult (hoffset : c.offset.toNat < 2 ^ 63)
    (hbase : ∀ store, c.store = some store → store.base.toNat < 2 ^ 63) :
    Low (sectionsResult fs file header c).2 := by
  unfold sectionsResult
  have hsame := extendedResult_offset fs file header c
  have hstore := extendedResult_store fs file header c
  split
  · cases hresult : extendedResult fs file header c with
    | mk outcome next =>
      rw [hresult] at hsame hstore
      dsimp only at hsame hstore
      rw [← hsame] at hoffset
      rw [← hstore] at hbase
      cases outcome with
      | error e => exact ⟨fun _ => hoffset, hbase⟩
      | ok _ => exact low_tableResult hoffset hbase
  · exact low_tableResult hoffset hbase

theorem low_stepsResult (h : Low c) : Low (stepsResult fs c).2 := by
  unfold stepsResult
  rcases openResult_eq fs c with ⟨e, hopen⟩ | ⟨file, stage, hopen⟩
  · rw [hopen]
    exact h
  · rw [hopen]
    dsimp only
    cases hread : headerAt fs file c.offset with
    | error e => exact ⟨h.offset_lt, h.base_lt⟩
    | ok header => exact low_sectionsResult (offset_lt_of_headerAt hread) h.base_lt

theorem keeps_low_load : Keeps Low (load fs) := by
  refine .of_runs fun c hc => ?_
  have hnext : Low (loadResult fs c).2 :=
    ⟨(low_stepsResult hc).offset_lt, (low_stepsResult hc).base_lt⟩
  cases hstage : c.stage with
  | unopened => exact ⟨_, _, load_runs (.inl hstage), hnext⟩
  | opened => exact ⟨_, _, load_runs (.inr (.inl hstage)), hnext⟩
  | headerValidated => exact ⟨_, _, load_runs (.inr (.inr hstage)), hnext⟩
  | loaded => exact ⟨_, _, load_of_loaded hstage, hc⟩
  | failed status => exact ⟨_, _, load_of_failed hstage, hc⟩

theorem keeps_low_openFile : Keeps Low (openFile fs) :=
  keeps_openFile fun _ _ h _ _ => ⟨h.offset_lt, h.base_lt⟩

theorem lasting_low : Lasting fs Low where
  load := keeps_low_load
  reopen _ _ _ := keeps_low_openFile
  overrides _ _ h := ⟨h.offset_lt, h.base_lt⟩
  naming _ _ h := ⟨h.offset_lt, h.base_lt⟩

theorem low_runAll (path : Path) (offset : UInt64) (naming : Naming)
    (history : List (FileSystem × Operation)) :
    Low ((Session.begin path offset naming).runAll history).container :=
  keeps_runAll (fun _ => lasting_low) (fun _ => keeps_low_openFile) history
    ⟨fun hread => hread.elim nofun nofun, nofun⟩

end Container

/-! ## The checked operations are the operations -/

namespace Checked

open Container Agrees

variable {fs : FileSystem} {file : Handle} {header : ContainerHeader} {P : Container → Prop}

/-! ### Loading -/

/-- The offset of the container is in the lower half of the numbers. -/
def LowOffset (c : Container) : Prop := c.offset.toNat < 2 ^ 63

theorem fits_of_lowOffset {c : Container} (h : LowOffset c) {place : UInt64}
    (hplace : place.toNat < 2 ^ 63) : c.offset.toNat + place.toNat < 2 ^ 64 :=
  Nat.add_lt_add h hplace

theorem agrees_openFile : Agrees P (openFile fs) (openFile fs) := by
  refine container_bind fun c _ => ?_
  cases c.file with
  | some file => exact of_pure file
  | none =>
    dsimp only
    cases fs.openPath c.path with
    | error e => exact note_bind (of_throw _)
    | ok file => exact note_bind (bind_any (of_update _) fun _ => of_pure file)

theorem agrees_readHeader : Agrees P (readHeader fs file) (readHeader fs file) := by
  refine container_bind fun c _ => ofExcept_bind fun bytes => ofExcept_bind fun header => ?_
  refine ofExcept_bind fun _ => bind_any (of_update _) fun _ => ?_
  exact note_bind (note_bind (of_pure header))

theorem agrees_findOverrides : Agrees P (findOverrides fs) (findOverrides fs) := by
  refine container_bind fun c _ => bind_any (of_append _) fun _ => ?_
  refine bind_any (of_update _) fun _ => ?_
  split
  · exact of_note _ _
  · exact of_note _ _

theorem agrees_noteExtended (extended : ExtendedHeader) :
    Agrees P (noteExtended extended) (noteExtended extended) := by
  refine note_bind (note_bind (note_bind (note_bind (note_bind ?_))))
  exact note_bind (note_bind (note_bind (note_bind (of_note _ _))))

theorem agrees_readExtended :
    Agrees LowOffset (readExtended fs file header) (readExtended fs file header) := by
  refine container_bind fun c hc => sum_bind (fits_of_lowOffset hc (by decide)) ?_
  refine ofExcept_bind fun bytes => ofExcept_bind fun extended => ?_
  refine bind_any (of_update _) fun _ => bind_any (agrees_noteExtended extended) fun _ => ?_
  refine optional (of_note _ _) (.of_note _ _) ?_
  dsimp only
  split
  · exact note_bind (bind_any (of_throw _) fun _ => of_update _)
  · exact of_update _

theorem agrees_readEmbeddedTable :
    Agrees LowOffset (readEmbeddedTable fs file header) (readEmbeddedTable fs file header) := by
  refine container_bind_keeps fun c => ?_
  split
  · refine unitBytes_bind (unitBytes_bind ?_)
    refine bind_keeps (of_update _) (.of_update fun _ hc => hc) fun _ => ?_
    refine note_bind (note_bind (container_bind fun c hc => ?_))
    refine sum_bind (fits_of_lowOffset hc (unitBytes_lt _)) ?_
    refine ofExcept_bind fun bytes => ofExcept_bind fun table => ?_
    refine bind_eq (table.checkBoundsM_eq _) (table.checkBoundsM_eq _) ?_
    exact ofExcept_bind fun _ => of_update _
  · exact of_pure ()

theorem agrees_withoutImage (path : Path) :
    Agrees LowOffset
      (do note .warning s!"Ignoring unreadable ExeFS override {path.text}"
          update fun c => { c with overrides := { c.overrides with exefs := .embedded } }
          readEmbeddedTable fs file header)
      (do note .warning s!"Ignoring unreadable ExeFS override {path.text}"
          update fun c => { c with overrides := { c.overrides with exefs := .embedded } }
          readEmbeddedTable fs file header) :=
  note_bind (bind_keeps (of_update _) (.of_update fun _ hc => hc) fun _ =>
    agrees_readEmbeddedTable)

theorem agrees_readTable :
    Agrees LowOffset (readTable fs file header) (readTable fs file header) := by
  refine container_bind_keeps fun c => ?_
  cases c.overrides.exefs with
  | embedded => exact agrees_readEmbeddedTable
  | override path =>
    dsimp only
    cases fs.openPath path with
    | error e =>
      refine note_bind (bind_eq (imageStoreM_eq fs path) (imageStoreM_eq fs path) ?_)
      cases imageStore? fs path with
      | some store => exact note_bind (of_update _)
      | none => exact agrees_withoutImage path
    | ok _ =>
      refine bind_eq (imageStoreM_eq fs path) (imageStoreM_eq fs path) ?_
      cases imageStore? fs path with
      | some store => exact note_bind (of_update _)
      | none => exact agrees_withoutImage path

theorem yields_readHeader :
    Yields (fun _ => True) (readHeader fs file) fun _ => LowOffset := by
  refine .of_runs fun c _ => ⟨_, _, readHeader_runs fs file c, fun header hheader => ?_⟩
  rw [hheader]
  exact offset_lt_of_headerAt hheader

theorem keeps_lowOffset_readExtended : Keeps LowOffset (readExtended fs file header) := by
  refine .of_runs fun c hc => ⟨_, _, readExtended_runs fs file header c, ?_⟩
  show (extendedResult fs file header c).2.offset.toNat < 2 ^ 63
  rw [extendedResult_offset]
  exact hc

/-- Nothing is added to the offset before the header was read there. -/
theorem agrees_loadSteps : Agrees P (loadSteps fs) (loadSteps fs) := by
  refine bind_any agrees_openFile fun file => ?_
  refine bind agrees_readHeader yields_readHeader fun header => ?_
  refine bind_keeps (of_update _) (.of_update fun _ hc => hc) fun _ => ?_
  refine bind_keeps agrees_findOverrides (keeps_findOverrides fun _ _ hc => hc) fun _ => ?_
  refine container_bind_keeps fun c => ?_
  exact optional agrees_readExtended keeps_lowOffset_readExtended agrees_readTable

theorem agrees_load : Agrees P (load fs) (load fs) := by
  refine container_bind fun c _ => ?_
  cases c.stage with
  | loaded => exact of_pure ()
  | failed status => exact of_throw _
  | unopened | opened | headerValidated =>
    refine bind_any agrees_loadSteps.attempt fun outcome => ?_
    cases outcome with
    | ok _ => exact of_update _
    | error e => exact bind_any (of_update _) fun _ => of_throw e

theorem agrees_ensureHeader : Agrees P (ensureHeader fs) (ensureHeader fs) := by
  refine bind_any agrees_load.attempt fun outcome => ?_
  cases outcome with
  | ok _ => exact of_pure ()
  | error e =>
    refine container_bind fun c _ => ?_
    split
    · exact of_note _ _
    · exact of_throw e

/-! ### Reading -/

theorem agrees_readOverrideSection (name : String) :
    Agrees P (readOverrideSection fs name) (readOverrideSection fs name) := by
  refine bind_any agrees_load fun _ => container_bind fun c _ => ?_
  refine optional (of_throw _) (.of_throw _) ?_
  cases c.overrides.section? name with
  | embedded => exact of_throw _
  | override path =>
    dsimp only
    cases fs.wholeFile? path with
    | some bytes => exact note_bind (of_pure bytes)
    | none => exact note_bind (of_throw _)

theorem agrees_readLogo (region : Region) :
    Agrees LowOffset (readLogo fs region) (readLogo fs region) := by
  have hopen : Keeps LowOffset (openFile fs) := keeps_openFile fun _ _ h _ _ => h
  refine bind_keeps agrees_openFile hopen fun file => container_bind fun c hc => ?_
  refine unitBytes_bind (sum_bind (fits_of_lowOffset hc (unitBytes_lt _)) (unitBytes_bind ?_))
  split
  · exact of_pure _
  · exact note_bind (of_throw _)

/-- A section starts at a number of 32 bits after its table, which was read. -/
theorem agrees_readStoredSection (name : String) :
    Agrees Low (readStoredSection fs name) (readStoredSection fs name) := by
  refine container_bind fun c hc => ?_
  cases hstore : c.store? with
  | none => exact of_throw _
  | some store =>
    dsimp only
    cases hindex : store.table.position? name with
    | none => exact of_throw _
    | some index =>
      have hbase := hc.base_lt store (store_of_store? hstore)
      have hslot := (store.table.slots.get index).offset.toNat_lt
      have htable : (UInt64.ofNat SectionTable.byteSize).toNat = 0x200 := rfl
      refine note_bind (sum_bind (by omega) (sum_bind ?_ (ofExcept_bind fun bytes => ?_)))
      · rw [toNat_add_of_low hbase (by rw [htable]; decide), htable, UInt32.toNat_toUInt64]
        omega
      · split
        · exact of_ofExcept _ _
        · exact of_pure bytes

theorem agrees_readSection (name : String) :
    Agrees Low (readSection fs name) (readSection fs name) := by
  refine bind_keeps agrees_load keeps_low_load fun _ => ?_
  refine bind_keeps (agrees_readOverrideSection name).attempt
    (lasting_low.readOverrideSection name) fun outcome => ?_
  cases outcome with
  | ok bytes => exact of_pure bytes
  | error e =>
    refine optional (of_throw e) (.of_throw e) (container_bind fun c hc => ?_)
    have hstored : Agrees (· = c) (readStoredSection fs name) (readStoredSection fs name) :=
      mono (agrees_readStoredSection name) fun _ hsame => hsame ▸ hc
    split
    · cases hheader : c.header with
      | none => exact note_bind hstored
      | some header =>
        dsimp only
        split
        · exact mono (agrees_readLogo header.logo) fun _ hsame =>
            hsame ▸ hc.offset_lt (.inl (Option.isSome_of_mem hheader))
        · exact note_bind hstored
    · exact hstored

theorem agrees_locateOverrideRomfs :
    Agrees P (locateOverrideRomfs fs) (locateOverrideRomfs fs) := by
  refine bind_any agrees_ensureHeader fun _ => container_bind fun c _ => ?_
  cases c.overrides.romfs with
  | embedded => exact of_throw _
  | override path =>
    dsimp only
    cases fs.openPath path with
    | ok file => exact note_bind (of_pure _)
    | error e => exact note_bind (of_throw _)

theorem agrees_locateEmbeddedRomfs :
    Agrees Low (locateEmbeddedRomfs fs) (locateEmbeddedRomfs fs) := by
  refine container_bind fun c hc => ?_
  split
  · rename_i hromfs
    have hoffset : LowOffset c := hc.offset_lt (.inr hromfs)
    refine unitBytes_bind (sum_bind (fits_of_lowOffset hoffset (unitBytes_lt _)) ?_)
    refine unitBytes_bind (note_bind (note_bind ?_))
    exact bind_any agrees_openFile fun file => of_pure _
  · exact note_bind (of_throw _)

theorem agrees_locateRomfs : Agrees Low (locateRomfs fs) (locateRomfs fs) := by
  refine bind_keeps agrees_ensureHeader lasting_low.ensureHeader fun _ => ?_
  refine bind_keeps agrees_locateOverrideRomfs.attempt lasting_low.locateOverrideRomfs
    fun outcome => ?_
  cases outcome with
  | ok range => exact of_pure range
  | error e => exact agrees_locateEmbeddedRomfs

theorem agrees_readProgramId : Agrees P (readProgramId fs) (readProgramId fs) := by
  refine bind_any agrees_ensureHeader fun _ => container_bind fun c _ => ?_
  cases c.header with
  | some header => exact of_pure header.programId
  | none => exact of_pure 0

theorem agrees_perform (op : Operation) : Agrees Low (op.perform fs) (op.perform fs) := by
  cases op with
  | openFile =>
    exact bind_any (bind_any agrees_openFile fun _ => of_pure _) fun _ => of_pure _
  | load => exact bind_any agrees_load fun _ => of_pure _
  | findOverrides => exact bind_any agrees_findOverrides fun _ => of_pure _
  | useNaming naming => exact bind_any (of_update _) fun _ => of_pure _
  | readSection name => exact bind_any (agrees_readSection name) fun _ => of_pure _
  | readOverrideSection name =>
    exact bind_any (agrees_readOverrideSection name) fun _ => of_pure _
  | locateRomfs => exact bind_any agrees_locateRomfs fun _ => of_pure _
  | locateOverrideRomfs => exact bind_any agrees_locateOverrideRomfs fun _ => of_pure _
  | readProgramId => exact bind_any agrees_readProgramId fun _ => of_pure _

end Checked

/-! ## What is handed out -/

namespace Container

variable {fs : FileSystem}

/-- The end of the range fits into 64 bits. -/
def EndFits (range : FileRange) : Prop := range.offset.toNat + range.size.toNat < 2 ^ 64

/-- A range that overrides the RomFS is a whole file. -/
theorem yields_locateOverrideRomfs :
    Yields Low (locateOverrideRomfs fs) fun range _ => EndFits range := by
  refine .bind (.of_keeps lasting_low.ensureHeader) fun _ => .container_bind fun c _ => ?_
  split
  · split
    · rename_i file hopen
      refine .bind (.of_keeps (.of_note _ _)) fun _ => .of_pure fun _ _ => ?_
      show (0 : UInt64).toNat + (fs.sizeOf file).toNat < 2 ^ 64
      rw [UInt64.toNat_zero, Nat.zero_add]
      exact (fs.sizeOf file).toNat_lt
    · exact .bind (.of_keeps (.of_note _ _)) fun _ => .of_throw _
  · exact .of_throw _

/-- The places in a header are so far below 2^63 that the RomFS ends below 2^64. -/
theorem yields_locateEmbeddedRomfs :
    Yields Low (locateEmbeddedRomfs fs) fun range _ => EndFits range := by
  refine .container_bind fun c hc => ?_
  split
  · rename_i hromfs
    have hoffset := hc.offset_lt (.inr hromfs)
    have hplace := toNat_unitBytes_lt c.romfsRegion.offset
    have hsize := toNat_unitBytes_lt c.romfsRegion.size
    have hsum := toNat_add_of_low hoffset (unitBytes_lt c.romfsRegion.offset)
    simp only [unitBytesM_eq, sum_eq_pure, pure_bind]
    refine .bind (.of_any _) fun _ => .bind (.of_any _) fun _ => .bind (.of_any _) fun file => ?_
    refine .of_pure fun _ _ => ?_
    show (c.offset + unitBytes c.romfsRegion.offset).toNat + (unitBytes c.romfsRegion.size).toNat <
      2 ^ 64
    rw [hsum]
    omega
  · exact .bind (.of_any _) fun _ => .of_throw _

theorem yields_locateRomfs : Yields Low (locateRomfs fs) fun range _ => EndFits range := by
  refine .bind (.of_keeps lasting_low.ensureHeader) fun _ => ?_
  refine .bind (yields_locateOverrideRomfs.attempt lasting_low.locateOverrideRomfs)
    fun outcome => ?_
  cases outcome with
  | ok range => exact .of_pure fun _ hfits => hfits.2 range rfl
  | error e =>
    intro s hs
    exact yields_locateEmbeddedRomfs s hs.1

theorem yields_perform (op : Operation) :
    Yields Low (op.perform fs) fun answer _ => ∀ range, answer = .range range → EndFits range := by
  cases op with
  | locateRomfs =>
    refine .bind yields_locateRomfs fun range => .of_pure fun _ hfits found hfound => ?_
    cases hfound
    exact hfits
  | locateOverrideRomfs =>
    refine .bind yields_locateOverrideRomfs fun range => .of_pure fun _ hfits found hfound => ?_
    cases hfound
    exact hfits
  | openFile => exact .bind (.of_any _) fun _ => .of_pure fun _ _ _ => nofun
  | load => exact .bind (.of_any _) fun _ => .of_pure fun _ _ _ => nofun
  | findOverrides => exact .bind (.of_any _) fun _ => .of_pure fun _ _ _ => nofun
  | useNaming naming => exact .bind (.of_any _) fun _ => .of_pure fun _ _ _ => nofun
  | readSection name => exact .bind (.of_any _) fun _ => .of_pure fun _ _ _ => nofun
  | readOverrideSection name => exact .bind (.of_any _) fun _ => .of_pure fun _ _ _ => nofun
  | readProgramId => exact .bind (.of_any _) fun _ => .of_pure fun _ _ _ => nofun

theorem sums_of_run {s : Session} (hs : Low s.container) {op : Operation} {range : FileRange}
    (h : (s.run fs op).1 = .ok (.range range)) : range.Sums :=
  FileRange.sums_of_fits (yields_perform op s hs _ _ (Prod.ext h rfl) range rfl)

end Container

/-! ## Histories -/

namespace BootRecord

/-- What a row of boots leaves in a record. -/
def bootAll (record : BootRecord) (boots : List (FileSystem × Path × Naming)) : BootRecord :=
  boots.foldl (fun record (fs, path, naming) => (boot fs path naming record).record) record

/-- The RomFS that is noted can be read and copied without an overflow. -/
def RomfsSums (record : BootRecord) : Prop := ∀ range, record.romfs = some range → range.Sums

theorem romfsSums_empty : empty.RomfsSums := by
  intro range hrange
  cases hrange

/-- A RomFS that a boot notes is one that the container has answered. -/
theorem romfsSums_boot {record : BootRecord} (h : record.RomfsSums) (fs : FileSystem) (path : Path)
    (naming : Naming) : (boot fs path naming record).record.RomfsSums := by
  have hends := booted fs path naming record
  cases hboot : boot fs path naming record with
  | mk outcome noted log =>
    rw [hboot] at hends
    cases hends with
    | refused => exact h
    | @done offset file header _ _ hloaded =>
      intro range hrange
      have hlow := Container.low_runAll path offset naming [(fs, .load)]
      have hanswer : ((Session.loading fs path offset naming).run fs .locateRomfs).1 =
          (Container.romfsAnswer fs (Session.loading fs path offset naming).container file).map
            .range :=
        hloaded.ready.outcome_run fs .locateRomfs
      rw [noting] at hrange
      cases hromfs : Container.romfsAnswer fs (Session.loading fs path offset naming).container file
        with
      | error e =>
        rw [hromfs] at hrange
        exact h range hrange
      | ok found =>
        rw [hromfs] at hrange hanswer
        cases hrange
        exact Container.sums_of_run hlow hanswer

theorem romfsSums_bootAll {record : BootRecord} (h : record.RomfsSums)
    (boots : List (FileSystem × Path × Naming)) : (record.bootAll boots).RomfsSums := by
  induction boots generalizing record with
  | nil => exact h
  | cons next rest ih =>
    obtain ⟨fs, path, naming⟩ := next
    exact ih (romfsSums_boot h fs path naming)

end BootRecord

namespace Container

/-- Whatever the offset of a container and the contents of its files, and whatever was done with it
before, no operation on it overflows: with checked sums and products it comes to the same end. The
same is true of reading and copying a RomFS that it has answered, or that some row of boots has
noted. -/
theorem run?_eq (path : Path) (offset : UInt64) (naming : Naming)
    (history : List (FileSystem × Operation)) :
    let s := (Session.begin path offset naming).runAll history
    (∀ fs op, s.run? fs op = some (s.run fs op)) ∧
    (∀ fs op range, (s.run fs op).1 = .ok (.range range) → range.Sums) ∧
    ∀ boots range, (BootRecord.empty.bootAll boots).romfs = some range → range.Sums := by
  intro s
  have hlow : Low s.container := low_runAll path offset naming history
  refine ⟨fun fs op => Checked.agrees_perform op s hlow, fun fs op range => sums_of_run hlow, ?_⟩
  exact BootRecord.romfsSums_bootAll BootRecord.romfsSums_empty

end Container

end Cartridge
