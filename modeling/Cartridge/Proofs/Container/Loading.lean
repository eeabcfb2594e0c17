import Cartridge.Container.Load
import Cartridge.Proofs.Container.Procedure
import Cartridge.Proofs.Outcome

/-!
# What a load does

The result of a load is a function of the files and of the container: which outcome it has, and
what it leaves of the container at every point where it may fail. `loadResult` is that function,
in the order of the steps, and `load` computes it.
-/
namespace Cartridge.Container

open Procedure

variable {fs : FileSystem} {c : Container} {file : Handle}

/-! ## Records in a file -/

/-- The container header at a place of a file. -/
def headerAt (fs : FileSystem) (file : Handle) (start : UInt64) :
    Except ContainerError ContainerHeader := do
  let bytes ← (fs.readExactly file start ContainerHeader.byteSize).mapError .file
  let header ← (ContainerHeader.ofBytes bytes).mapError .header
  header.validate.mapError .header
  return header

/-- The extended header at a place of a file. -/
def extendedAt (fs : FileSystem) (file : Handle) (start : UInt64) :
    Except ContainerError ExtendedHeader := do
  let bytes ← (fs.readExactly file start ExtendedHeader.byteSize).mapError .file
  (ExtendedHeader.ofBytes bytes).mapError .extendedHeader

/-- The section table at a place of a file, for an ExeFS of this size. -/
def tableAt (fs : FileSystem) (file : Handle) (start limit : UInt64) :
    Except ContainerError SectionTable := do
  let bytes ← (fs.readExactly file start SectionTable.byteSize).mapError .file
  let table ← (SectionTable.ofBytes bytes).mapError .sectionTable
  (table.checkBounds limit).mapError .sectionTable
  return table

theorem imageStoreM_eq_bind {m : Type → Type} [Monad m] [LawfulMonad m] [Arithmetic m]
    [LawfulArithmetic m] (fs : FileSystem) (path : Path) :
    (imageStoreM fs path : m (Option SectionStore)) = pure
      ((imageTable? fs path).bind fun (file, table) =>
        (table.checkBounds (fs.sizeOf file)).toOption.map fun _ =>
          ⟨file, 0, table, .override path⟩) := by
  unfold imageStoreM
  cases imageTable? fs path with
  | none => rfl
  | some found =>
    simp only [SectionTable.checkBoundsM_eq, pure_bind, Option.bind_some]
    cases found.2.checkBounds (fs.sizeOf found.1) with
    | error e => rfl
    | ok _ => rfl

theorem imageStore?_eq_bind (fs : FileSystem) (path : Path) :
    imageStore? fs path = (imageTable? fs path).bind fun (file, table) =>
      (table.checkBounds (fs.sizeOf file)).toOption.map fun _ => ⟨file, 0, table, .override path⟩ :=
  congrArg Id.run (imageStoreM_eq_bind fs path)

/-- The ends of the sections of an image always fit. -/
theorem imageStoreM_eq {m : Type → Type} [Monad m] [LawfulMonad m] [Arithmetic m]
    [LawfulArithmetic m] (fs : FileSystem) (path : Path) :
    (imageStoreM fs path : m (Option SectionStore)) = pure (imageStore? fs path) := by
  rw [imageStoreM_eq_bind, imageStore?_eq_bind]

/-! ## Results -/

/-- The outcome of loading or of a part of it, and the container after it. -/
abbrev Result := Except ContainerError Unit × Container

def extendedResult (fs : FileSystem) (file : Handle) (header : ContainerHeader)
    (c : Container) : Result :=
  match extendedAt fs file (c.offset + UInt64.ofNat ContainerHeader.byteSize) with
  | .error e => (.error e, c)
  | .ok extended =>
    let read := { c with isCompressed := extended.codeSet.isCompressed }
    if extended.programId != header.programId then
      (.error (.encrypted header.programId extended.programId), read)
    else (.ok (), { read with extended := some extended })

def embeddedResult (fs : FileSystem) (file : Handle) (header : ContainerHeader)
    (c : Container) : Result :=
  if header.hasExefs then
    let base := c.offset + header.exefs.byteOffset
    let placed := { c with exefsOffset := header.exefs.byteOffset }
    match tableAt fs file base header.exefs.byteSize with
    | .error e => (.error e, placed)
    | .ok table => (.ok (), { placed with store := some ⟨file, base, table, .embedded⟩ })
  else (.ok (), c)

def tableResult (fs : FileSystem) (file : Handle) (header : ContainerHeader)
    (c : Container) : Result :=
  match c.overrides.exefs.path?.bind (imageStore? fs) with
  | some store => (.ok (), c.keepImage store)
  | none =>
    embeddedResult fs file header { c with overrides := { c.overrides with exefs := .embedded } }

/-- What is left to do once the header has been read. -/
def sectionsResult (fs : FileSystem) (file : Handle) (header : ContainerHeader)
    (c : Container) : Result :=
  if header.hasExtended then
    match extendedResult fs file header c with
    | (.error e, next) => (.error e, next)
    | (.ok (), next) => tableResult fs file header next
  else tableResult fs file header c

def openResult (fs : FileSystem) (c : Container) : Except ContainerError Handle × Container :=
  match c.file with
  | some file => (.ok file, c)
  | none =>
    match fs.openPath c.path with
    | .error e => (.error (.file e), c)
    | .ok file => (.ok file, { c with file := some file, stage := .opened })

/-- The container with which a load goes on when it has read a valid header. -/
def validated (c : Container) (fs : FileSystem) (header : ContainerHeader) : Container :=
  { c.keepHeader header with
    stage := .headerValidated
    overrides := .resolve fs c.path c.naming }

def stepsResult (fs : FileSystem) (c : Container) : Result :=
  match openResult fs c with
  | (.error e, next) => (.error e, next)
  | (.ok file, next) =>
    match headerAt fs file next.offset with
    | .error e => (.error e, next)
    | .ok header => sectionsResult fs file header (next.validated fs header)

/-- The stage that an outcome of loading ends in. -/
def endStage : Except ContainerError Unit → Stage
  | .ok () => .loaded
  | .error e => .failed e.status

/-- The result of loading a container that has neither been loaded nor failed to load. -/
def loadResult (fs : FileSystem) (c : Container) : Result :=
  ((stepsResult fs c).1, { (stepsResult fs c).2 with stage := endStage (stepsResult fs c).1 })

/-! ## The steps compute their results -/

/-- A file that is open is used as it is. -/
theorem openFile_of_open (h : c.file = some file) : Runs (openFile fs) c (.ok file) c := by
  refine .container_bind ?_
  rw [h]
  exact .of_pure file

/-- A file that cannot be opened leaves the container as it was. -/
theorem openFile_of_error {e : AccessError} (h : c.file = none)
    (hopen : fs.openPath c.path = .error e) : Runs (openFile fs) c (.error (.file e)) c := by
  refine .container_bind ?_
  rw [h, hopen]
  exact .bind (.of_note _ _) (.of_throw _)

/-- A file that is opened now puts the container at the beginning of its loading. -/
theorem openFile_of_ok (h : c.file = none) (hopen : fs.openPath c.path = .ok file) :
    Runs (openFile fs) c (.ok file) { c with file := some file, stage := .opened } := by
  refine .container_bind ?_
  rw [h, hopen]
  exact .bind (.of_note _ _) (.bind (.of_update _) (.of_pure file))

theorem openFile_runs (fs : FileSystem) (c : Container) :
    Runs (openFile fs) c (openResult fs c).1 (openResult fs c).2 := by
  unfold openResult
  cases hfile : c.file with
  | some file => exact openFile_of_open hfile
  | none =>
    cases hopen : fs.openPath c.path with
    | error e => exact openFile_of_error hfile hopen
    | ok file => exact openFile_of_ok hfile hopen

/-- The container once its header has been read, or not. -/
def afterHeader (c : Container) : Except ContainerError ContainerHeader → Container
  | .ok header => c.keepHeader header
  | .error _ => c

theorem readHeader_runs (fs : FileSystem) (file : Handle) (c : Container) :
    Runs (readHeader fs file) c (headerAt fs file c.offset)
      (c.afterHeader (headerAt fs file c.offset)) := by
  refine .container_bind ?_
  unfold headerAt
  cases fs.readExactly file c.offset ContainerHeader.byteSize with
  | error e => exact .bind_error (.of_error e)
  | ok bytes =>
    refine .bind (.of_ok bytes) ?_
    rw [ok_mapError_bind]
    cases ContainerHeader.ofBytes bytes with
    | error e => exact .bind_error (.of_error e)
    | ok header =>
      refine .bind (.of_ok header) ?_
      rw [ok_mapError_bind]
      cases header.validate with
      | error e => exact .bind_error (.of_error e)
      | ok _ =>
        exact .bind (.of_ok ()) (.bind (.of_update _) (.bind (.of_note _ _)
          (.bind (.of_note _ _) (.of_pure header))))

theorem findOverrides_runs (fs : FileSystem) (c : Container) :
    Runs (findOverrides fs) c (.ok ())
      { c with overrides := .resolve fs c.path c.naming } := by
  refine .container_bind (.bind (.of_append _) (.bind (.of_update _) ?_))
  split
  · exact .of_note _ _
  · exact .of_note _ _

theorem noteExtended_runs (extended : ExtendedHeader) :
    Runs (noteExtended extended) c (.ok ()) c := by
  unfold noteExtended
  repeat refine .bind (.of_note _ _) ?_
  exact .of_note _ _

@[simp] theorem extendedResult_offset (fs : FileSystem) (file : Handle)
    (header : ContainerHeader) (c : Container) :
    (extendedResult fs file header c).2.offset = c.offset := by
  unfold extendedResult
  split
  · rfl
  · split <;> rfl

/-- Reading the extended header is not what finds the ExeFS. -/
@[simp] theorem extendedResult_hasExefs (fs : FileSystem) (file : Handle)
    (header : ContainerHeader) (c : Container) :
    (extendedResult fs file header c).2.hasExefs = c.hasExefs := by
  unfold extendedResult
  split
  · rfl
  · split <;> rfl

@[simp] theorem extendedResult_overrides (fs : FileSystem) (file : Handle)
    (header : ContainerHeader) (c : Container) :
    (extendedResult fs file header c).2.overrides = c.overrides := by
  unfold extendedResult
  split
  · rfl
  · split <;> rfl

theorem readExtended_runs (fs : FileSystem) (file : Handle) (header : ContainerHeader)
    (c : Container) :
    Runs (readExtended fs file header) c (extendedResult fs file header c).1
      (extendedResult fs file header c).2 := by
  unfold readExtended extendedResult extendedAt
  refine .container_bind (.bind (.of_sum _ _) ?_)
  dsimp only
  cases fs.readExactly file (c.offset + UInt64.ofNat ContainerHeader.byteSize)
      ExtendedHeader.byteSize with
  | error e =>
    simp only [error_mapError_bind]
    exact .bind_error (.of_error e)
  | ok bytes =>
    simp only [ok_mapError_bind]
    refine .bind (.of_ok bytes) ?_
    cases ExtendedHeader.ofBytes bytes with
    | error e => exact .bind_error (.of_error e)
    | ok extended =>
      simp only [ok_mapError]
      refine .bind (.of_ok extended) (.bind (.of_update _) (.bind (noteExtended_runs extended)
        (.optional (.of_note _ _) ?_)))
      by_cases hid : (extended.programId != header.programId) = true
      · simp only [hid, if_true]
        exact .bind (.of_note _ _) (.bind_error (.of_throw _))
      · simp only [hid, Bool.false_eq_true, if_false]
        exact .of_update _

theorem readEmbeddedTable_runs (fs : FileSystem) (file : Handle) (header : ContainerHeader)
    (c : Container) (hnoted : c.hasExefs = header.hasExefs) :
    Runs (readEmbeddedTable fs file header) c (embeddedResult fs file header c).1
      (embeddedResult fs file header c).2 := by
  unfold readEmbeddedTable embeddedResult tableAt HashedRegion.byteOffset HashedRegion.byteSize
  refine .container_bind ?_
  by_cases hexefs : header.hasExefs = true
  · rw [if_pos hexefs, if_pos (hnoted.trans hexefs)]
    refine .bind (.of_eq_pure (unitBytesM_eq _)) (.bind (.of_eq_pure (unitBytesM_eq _)) ?_)
    refine .bind (.of_update _) (.bind (.of_note _ _) (.bind (.of_note _ _) ?_))
    refine .container_bind (.bind (.of_sum _ _) ?_)
    dsimp only
    cases fs.readExactly file (c.offset + unitBytes header.exefs.offset) SectionTable.byteSize with
    | error e =>
      simp only [error_mapError_bind]
      exact .bind_error (.of_error e)
    | ok bytes =>
      simp only [ok_mapError_bind]
      refine .bind (.of_ok bytes) ?_
      cases SectionTable.ofBytes bytes with
      | error e =>
        simp only [error_mapError_bind]
        exact .bind_error (.of_error e)
      | ok table =>
        simp only [ok_mapError_bind]
        refine .bind (.of_ok table) (.bind (.of_eq_pure (table.checkBoundsM_eq _)) ?_)
        cases table.checkBounds (unitBytes header.exefs.size) with
        | error e =>
          simp only [error_mapError_bind]
          exact .bind_error (.of_error e)
        | ok _ =>
          simp only [ok_mapError_bind]
          exact .bind (.of_ok ()) (.of_update _)
  · rw [if_neg hexefs, if_neg (by rwa [hnoted])]
    exact .of_pure ()

theorem readTable_runs (fs : FileSystem) (file : Handle) (header : ContainerHeader)
    (c : Container) (hnoted : c.hasExefs = header.hasExefs) :
    Runs (readTable fs file header) c (tableResult fs file header c).1
      (tableResult fs file header c).2 := by
  unfold readTable tableResult
  refine .container_bind ?_
  cases hsource : c.overrides.exefs with
  | embedded =>
    have hsame : { c with overrides := { c.overrides with exefs := .embedded } } = c := by
      rw [← hsource]
    simp only [Source.path?, Option.bind_none, hsame]
    exact readEmbeddedTable_runs fs file header c hnoted
  | override image =>
    simp only [Source.path?, Option.bind_some, imageStoreM_eq, pure_bind]
    cases imageStore? fs image with
    | some store =>
      have hstore : Runs (do
          note .debug s!"Loading ExeFS section from {image.text}"
          update fun c => c.keepImage store) c (.ok ()) (c.keepImage store) :=
        .bind (.of_note _ _) (.of_update _)
      cases fs.openPath image with
      | error e => exact .bind (.of_note _ _) hstore
      | ok _ => exact hstore
    | none =>
      have hforget : Runs (do
          note .warning s!"Ignoring unreadable ExeFS override {image.text}"
          update fun c => { c with overrides := { c.overrides with exefs := .embedded } }
          readEmbeddedTable fs file header) c _ _ :=
        .bind (.of_note _ _) (.bind (.of_update _) (readEmbeddedTable_runs fs file header _ hnoted))
      cases fs.openPath image with
      | error e => exact .bind (.of_note _ _) hforget
      | ok _ => exact hforget

theorem sections_runs (fs : FileSystem) (file : Handle) (header : ContainerHeader)
    (c : Container) (hextended : c.hasExtended = header.hasExtended)
    (hexefs : c.hasExefs = header.hasExefs) :
    Runs (do
        if (← container).hasExtended then readExtended fs file header
        readTable fs file header) c (sectionsResult fs file header c).1
      (sectionsResult fs file header c).2 := by
  refine .container_bind ?_
  unfold sectionsResult
  rw [hextended]
  by_cases hdeclared : header.hasExtended = true
  · have hrun := readExtended_runs fs file header c
    have hnoted := extendedResult_hasExefs fs file header c
    simp only [hdeclared, if_true]
    cases hresult : extendedResult fs file header c with
    | mk outcome next =>
      rw [hresult] at hrun hnoted
      cases outcome with
      | error e => exact .bind_error hrun
      | ok _ => exact .bind hrun (readTable_runs fs file header next (hnoted.trans hexefs))
  · simp only [hdeclared, Bool.false_eq_true, if_false]
    exact readTable_runs fs file header c hexefs

theorem loadSteps_runs (fs : FileSystem) (c : Container) :
    Runs (loadSteps fs) c (stepsResult fs c).1 (stepsResult fs c).2 := by
  have hopen := openFile_runs fs c
  unfold loadSteps stepsResult
  cases hresult : openResult fs c with
  | mk outcome next =>
    rw [hresult] at hopen
    cases outcome with
    | error e => exact .bind_error hopen
    | ok file =>
      refine .bind hopen ?_
      have hheader := readHeader_runs fs file next
      dsimp only
      cases hread : headerAt fs file next.offset with
      | error e =>
        rw [hread] at hheader
        exact .bind_error hheader
      | ok header =>
        rw [hread] at hheader
        exact .bind hheader (.bind (.of_update _) (.bind (findOverrides_runs fs _)
          (sections_runs fs file header _ rfl rfl)))

theorem load_of_loaded (h : c.stage = .loaded) : Runs (load fs) c (.ok ()) c := by
  refine .container_bind ?_
  rw [h]
  exact .of_pure ()

theorem load_of_failed {status : Status} (h : c.stage = .failed status) :
    Runs (load fs) c (.error (.previouslyFailed status)) c := by
  refine .container_bind ?_
  rw [h]
  exact .of_throw _

/-- A container that has neither been loaded nor failed to load is loaded step by step. -/
theorem load_runs (h : c.stage = .unopened ∨ c.stage = .opened ∨ c.stage = .headerValidated) :
    Runs (load fs) c (loadResult fs c).1 (loadResult fs c).2 := by
  have hsteps := (loadSteps_runs fs c).attempt
  refine .container_bind ?_
  unfold loadResult
  rcases h with h | h | h <;> rw [h] <;> refine .bind hsteps ?_ <;>
    cases (stepsResult fs c).1 with
    | ok _ => exact .of_update _
    | error e => exact .bind (.of_update _) (.of_throw e)

end Cartridge.Container
