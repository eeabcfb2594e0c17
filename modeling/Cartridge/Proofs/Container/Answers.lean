import Cartridge.Proofs.Container.Completion
import Cartridge.Proofs.Container.FirstLoad

/-!
# What a loaded container answers

Each operation on a loaded container has an outcome that depends on the container, on the files it
meets and on nothing else. Only a search for override files and new naming conventions change the
container, and neither touches what was read of it.
-/
namespace Cartridge

open Procedure

namespace OverrideSet

variable {name : String} {p : Path}

theorem mem_of_lookup {files : List (String × Path)} (h : files.lookup name = some p) :
    (name, p) ∈ files := by
  obtain ⟨before, after, hsplit, -⟩ := List.lookup_eq_some_iff.mp h
  rw [hsplit]
  exact List.mem_append_right _ List.mem_cons_self

theorem section?_eq_override {o : OverrideSet} :
    o.section? name = .override p ↔ o.sections.lookup name = some p := by
  unfold section?
  cases o.sections.lookup name with
  | none => exact iff_of_false nofun nofun
  | some found => simp

end OverrideSet

namespace Container

variable {fs : FileSystem} {c : Container} {file : Handle}

/-! ## The answers -/

/-- A section from its override file. -/
def overrideAnswer (fs : FileSystem) (c : Container) (name : String) :
    Except ContainerError Bytes :=
  if c.naming.fileName? name = none then .error (.notFound name)
  else
    match (c.overrides.section? name).path?.bind fs.wholeFile? with
    | some bytes => .ok bytes
    | none => .error (.notUsed s!"override for section '{name}'")

/-- The region that a section is read from instead of the ExeFS. -/
def regionOf? (c : Container) (name : String) : Option Region :=
  if name = logoSection ∧ c.overrides.exefs.isOverride = false then
    (c.header.map ContainerHeader.logo).filter Region.isPresent
  else none

def regionAnswer (fs : FileSystem) (c : Container) (file : Handle) (region : Region) :
    Except ContainerError Bytes :=
  readRegion fs file (c.offset + region.byteOffset) region.byteSize "logo region"

/-- A section from the ExeFS in use. -/
def storedAnswer (fs : FileSystem) (c : Container) (name : String) :
    Except ContainerError Bytes :=
  match c.store? with
  | none => .error (.notUsed "ExeFS")
  | some store =>
    match store.table.position? name with
    | none => .error (.notUsed s!"ExeFS section '{name}'")
    | some index => do
      let slot := store.table.slots.get index
      let start := store.base + UInt64.ofNat SectionTable.byteSize + slot.offset.toUInt64
      let bytes ← readRegion fs store.file start slot.size.toUInt64 s!"ExeFS section '{name}'"
      if name = codeSection && c.isCompressed then
        (Compression.decompress bytes).mapError .compression
      else return bytes

/-- A section from wherever it is to be read: of its override file, its region and the ExeFS, the
first that is there. -/
def sectionAnswer (fs : FileSystem) (c : Container) (file : Handle) (name : String) :
    Except ContainerError Bytes :=
  match overrideAnswer fs c name with
  | .ok bytes => .ok bytes
  | .error _ =>
    match c.regionOf? name with
    | some region => regionAnswer fs c file region
    | none => storedAnswer fs c name

def overrideRomfsAnswer (fs : FileSystem) (c : Container) : Except ContainerError FileRange :=
  match c.overrides.romfs with
  | .override path =>
    match fs.openPath path with
    | .ok file => .ok ⟨file, path, 0, fs.sizeOf file⟩
    | .error _ => .error (.notUsed "RomFS override")
  | .embedded => .error (.notUsed "RomFS override")

def embeddedRomfsAnswer (c : Container) (file : Handle) : Except ContainerError FileRange :=
  if c.hasRomfs then
    .ok ⟨file, c.path, c.offset + c.romfsRegion.byteOffset, c.romfsRegion.byteSize⟩
  else .error (.notUsed "RomFS")

/-- The RomFS of the container is where its header says. -/
theorem Noted.embeddedRomfsAnswer_eq {header : ContainerHeader} (h : Noted c)
    (hheader : c.header = some header) :
    embeddedRomfsAnswer c file =
      if header.hasRomfs then
        .ok ⟨file, c.path, c.offset + header.romfs.byteOffset, header.romfs.byteSize⟩
      else .error (.notUsed "RomFS") := by
  rw [embeddedRomfsAnswer, romfsRegion, hheader, h.hasRomfs_of_header hheader]

def romfsAnswer (fs : FileSystem) (c : Container) (file : Handle) :
    Except ContainerError FileRange :=
  match overrideRomfsAnswer fs c with
  | .ok range => .ok range
  | .error _ => embeddedRomfsAnswer c file

/-- The outcome of an operation on a loaded container whose file is this one. -/
def answer (fs : FileSystem) (c : Container) (file : Handle) :
    Operation → Except ContainerError Answer
  | .openFile | .load | .findOverrides | .useNaming _ => .ok .done
  | .readSection name => (sectionAnswer fs c file name).map .bytes
  | .readOverrideSection name => (overrideAnswer fs c name).map .bytes
  | .locateRomfs => (romfsAnswer fs c file).map .range
  | .locateOverrideRomfs => (overrideRomfsAnswer fs c).map .range
  | .readProgramId => .ok (.programId ((c.header.map ContainerHeader.programId).getD 0))

/-- The container that an operation leaves of a loaded one. -/
def next (fs : FileSystem) (c : Container) : Operation → Container
  | .findOverrides => { c with overrides := .resolve fs c.path c.naming }
  | .useNaming naming => c.withNaming naming
  | _ => c

/-- A container that is loaded, and its file. -/
structure Ready (c : Container) (file : Handle) : Prop where
  stage_eq : c.stage = .loaded
  file_eq : c.file = some file

/-- What is read through a file that is open depends on the bytes of the files only. -/
theorem readRegion_congr {now : FileSystem} (h : ∀ number, now.bytesOf number = fs.bytesOf number)
    (file : Handle) (start length : UInt64) (what : String) :
    readRegion now file start length what = readRegion fs file start length what := by
  cases file with
  | directory => rfl
  | file number =>
    simp only [readRegion, FileSystem.sizeOf, FileSystem.readExactly, FileSystem.readAt, h]

theorem storedAnswer_congr {now : FileSystem}
    (h : ∀ number, now.bytesOf number = fs.bytesOf number) (c : Container) (name : String) :
    storedAnswer now c name = storedAnswer fs c name := by
  simp only [storedAnswer, readRegion_congr h]

/-! ## What is answered by the header alone -/

/-- A load that failed after the header does not keep it from being used. -/
theorem ensureHeader_of_failed {status : Status} (hstage : c.stage = .failed status)
    (hheader : c.hasHeader = true) (fs : FileSystem) :
    Runs (ensureHeader fs) c (.ok ()) c := by
  refine .bind (load_of_failed hstage).attempt (.container_bind ?_)
  rw [if_pos hheader]
  exact .of_note _ _

section

variable {d : Container} (h : Runs (ensureHeader fs) c (.ok ()) d)
include h

theorem locateOverrideRomfs_runs :
    Runs (locateOverrideRomfs fs) c (overrideRomfsAnswer fs d) d := by
  refine .bind h (.container_bind ?_)
  unfold overrideRomfsAnswer
  cases d.overrides.romfs with
  | embedded => exact .of_throw _
  | override path =>
    dsimp only
    cases fs.openPath path with
    | ok opened => exact .bind (.of_note _ _) (.of_pure _)
    | error e => exact .bind (.of_note _ _) (.of_throw _)

omit h in
theorem locateEmbeddedRomfs_runs (hfile : c.file = some file) (fs : FileSystem) :
    Runs (locateEmbeddedRomfs fs) c (embeddedRomfsAnswer c file) c := by
  refine .container_bind ?_
  unfold embeddedRomfsAnswer
  split
  · refine .bind (.of_eq_pure (unitBytesM_eq _)) (.bind (.of_sum _ _) ?_)
    refine .bind (.of_eq_pure (unitBytesM_eq _)) (.bind (.of_note _ _) (.bind (.of_note _ _) ?_))
    exact .bind (openFile_of_open hfile) (.of_pure _)
  · exact .bind (.of_note _ _) (.of_throw _)

/-- The header is asked for once more when the override is located. -/
theorem locateRomfs_runs (hagain : Runs (ensureHeader fs) d (.ok ()) d)
    (hfile : d.file = some file) : Runs (locateRomfs fs) c (romfsAnswer fs d file) d := by
  refine .bind h (.bind (locateOverrideRomfs_runs hagain).attempt ?_)
  unfold romfsAnswer
  cases overrideRomfsAnswer fs d with
  | ok range => exact .of_pure range
  | error _ => exact locateEmbeddedRomfs_runs hfile fs

theorem readProgramId_runs :
    Runs (readProgramId fs) c (.ok ((d.header.map ContainerHeader.programId).getD 0)) d := by
  refine .bind h (.container_bind ?_)
  cases d.header with
  | none => exact .of_pure _
  | some header => exact .of_pure _

end

/-! ## The operations give these answers -/

section

variable (h : Ready c file)
include h

theorem ensureHeader_ready (fs : FileSystem) : Runs (ensureHeader fs) c (.ok ()) c :=
  .bind (load_of_loaded h.stage_eq).attempt (.of_pure ())

omit h in
/-- A section is asked for from its override file after a load, which may fail. -/
theorem readOverrideSection_of_load {outcome : Except ContainerError Unit} {d : Container}
    (hload : Runs (load fs) c outcome d) (name : String) :
    Runs (readOverrideSection fs name) c (outcome >>= fun _ => overrideAnswer fs d name) d := by
  cases outcome with
  | error e => exact .bind_error hload
  | ok _ =>
    refine .bind hload (.container_bind ?_)
    show Runs _ d (overrideAnswer fs d name) d
    unfold overrideAnswer
    by_cases hname : d.naming.fileName? name = none
    · simp only [hname, if_true]
      exact .bind_error (.of_throw _)
    · simp only [hname, if_false]
      cases d.overrides.section? name with
      | embedded => exact .bind (.of_pure _) (.of_throw _)
      | override path =>
        simp only [Source.path?, Option.bind_some]
        cases fs.wholeFile? path with
        | none => exact .bind (.of_note _ _) (.of_throw _)
        | some bytes => exact .bind (.of_note _ _) (.of_pure bytes)

theorem readOverrideSection_ready (fs : FileSystem) (name : String) :
    Runs (readOverrideSection fs name) c (overrideAnswer fs c name) c :=
  readOverrideSection_of_load (load_of_loaded h.stage_eq) name

theorem readLogo_ready (fs : FileSystem) (region : Region) :
    Runs (readLogo fs region) c (regionAnswer fs c file region) c := by
  refine .bind (openFile_of_open h.file_eq) (.container_bind ?_)
  refine .bind (.of_eq_pure (unitBytesM_eq _)) (.bind (.of_sum _ _) ?_)
  refine .bind (.of_eq_pure (unitBytesM_eq _)) ?_
  unfold regionAnswer Region.byteOffset Region.byteSize
  cases readRegion fs file (c.offset + unitBytes region.offset) (unitBytes region.size)
    "logo region" with
  | ok bytes => exact .of_pure bytes
  | error e => exact .bind (.of_note _ _) (.of_throw e)

omit h in
theorem readStoredSection_runs (fs : FileSystem) (c : Container) (name : String) :
    Runs (readStoredSection fs name) c (storedAnswer fs c name) c := by
  refine .container_bind ?_
  unfold storedAnswer
  cases c.store? with
  | none => exact .of_throw _
  | some store =>
    dsimp only
    cases store.table.position? name with
    | none => exact .of_throw _
    | some index =>
      refine .bind (.of_note _ _) (.bind (.of_sum _ _) (.bind (.of_sum _ _) ?_))
      dsimp only
      cases readRegion fs store.file _ _ _ with
      | error e => exact .bind_error (.of_error e)
      | ok bytes =>
        refine .bind (.of_ok bytes) ?_
        by_cases hcode : (name = codeSection && c.isCompressed) = true
        · rw [if_pos hcode]
          show Runs _ c (if (name = codeSection && c.isCompressed) = true then _ else _) c
          rw [if_pos hcode]
          cases Compression.decompress bytes with
          | ok unpacked => exact .of_ok unpacked
          | error e => exact .of_error e
        · rw [if_neg hcode]
          show Runs _ c (if (name = codeSection && c.isCompressed) = true then _ else _) c
          rw [if_neg hcode]
          exact .of_pure bytes

omit h in
/-- What keeps an override file from being read lets the built-in section be read. -/
theorem fallsBack_of_overrideAnswer {name : String} {e : ContainerError}
    (he : overrideAnswer fs c name = .error e) : fallsBack e = true := by
  unfold overrideAnswer at he
  split at he
  · cases he
    rfl
  · split at he
    · cases he
    · cases he
      rfl

theorem readSection_ready (fs : FileSystem) (name : String) :
    Runs (readSection fs name) c (sectionAnswer fs c file name) c := by
  refine .bind (load_of_loaded h.stage_eq)
    (.bind (readOverrideSection_ready h fs name).attempt ?_)
  unfold sectionAnswer regionOf?
  cases hanswer : overrideAnswer fs c name with
  | ok bytes => exact .of_pure bytes
  | error e =>
    simp only [fallsBack_of_overrideAnswer hanswer, Bool.not_true, Bool.false_eq_true, if_false]
    refine .container_bind ?_
    have hstored := readStoredSection_runs fs c name
    by_cases hlogo : name = logoSection ∧ c.overrides.exefs.isOverride = false
    · have hcond : (decide (name = logoSection) && !c.overrides.exefs.isOverride) = true := by
        simp [hlogo.1, hlogo.2]
      rw [if_pos hcond, if_pos hlogo]
      cases c.header with
      | none => exact .bind (.of_note _ _) hstored
      | some header =>
        by_cases hpresent : header.logo.isPresent = true
        · simp only [hpresent, if_true, Option.map_some, Option.filter_some]
          exact readLogo_ready h fs header.logo
        · simp only [hpresent, Option.map_some, Option.filter_some]
          exact .bind (.of_note _ _) hstored
    · have hcond : ¬(decide (name = logoSection) && !c.overrides.exefs.isOverride) = true := by
        simpa using hlogo
      rw [if_neg hcond, if_neg hlogo]
      exact hstored

theorem locateOverrideRomfs_ready (fs : FileSystem) :
    Runs (locateOverrideRomfs fs) c (overrideRomfsAnswer fs c) c :=
  locateOverrideRomfs_runs (ensureHeader_ready h fs)

theorem locateRomfs_ready (fs : FileSystem) :
    Runs (locateRomfs fs) c (romfsAnswer fs c file) c :=
  locateRomfs_runs (ensureHeader_ready h fs) (ensureHeader_ready h fs) h.file_eq

theorem readProgramId_ready (fs : FileSystem) :
    Runs (readProgramId fs) c (.ok ((c.header.map ContainerHeader.programId).getD 0)) c :=
  readProgramId_runs (ensureHeader_ready h fs)

/-- An operation on a loaded container gives its answer, and leaves the container that it has to. -/
theorem perform_ready (fs : FileSystem) (op : Operation) :
    Runs (op.perform fs) c (answer fs c file op) (next fs c op) := by
  cases op with
  | openFile =>
    exact .bind (.bind (openFile_of_open h.file_eq) (.of_pure ())) (.of_pure _)
  | load => exact .bind (load_of_loaded h.stage_eq) (.of_pure _)
  | findOverrides => exact .bind (findOverrides_runs fs c) (.of_pure _)
  | useNaming naming => exact .bind (.of_update _) (.of_pure _)
  | readSection name => exact (readSection_ready h fs name).map _
  | readOverrideSection name => exact (readOverrideSection_ready h fs name).map _
  | locateRomfs => exact (locateRomfs_ready h fs).map _
  | locateOverrideRomfs => exact (locateOverrideRomfs_ready h fs).map _
  | readProgramId => exact .bind (readProgramId_ready h fs) (.of_pure _)

end

/-! ## Quiet operations -/

theorem Gathered.ready {image : Path} {header : ContainerHeader}
    (h : Gathered fs image file header c) : Ready c file :=
  ⟨h.stage_eq, h.file_eq⟩

theorem next_of_quiet (fs : FileSystem) (c : Container) {op : Operation} (h : op.isQuiet) :
    next fs c op = c := by
  cases op with
  | findOverrides => cases h
  | useNaming naming => cases h
  | _ => rfl

namespace Ready

variable {s : Session} (h : Ready s.container file)
include h

theorem outcome_run (fs : FileSystem) (op : Operation) :
    (s.run fs op).1 = answer fs s.container file op :=
  (perform_ready h fs op).outcome_eq

theorem container_run {op : Operation} (fs : FileSystem) (hquiet : op.isQuiet) :
    (s.run fs op).2.container = s.container :=
  (perform_ready h fs op).container_eq.trans (next_of_quiet fs s.container hquiet)

/-- Loading again does nothing, and looks at no file. -/
theorem run_load (fs : FileSystem) : s.run fs .load = (.ok .done, s) := by
  have hload : (load fs).perform s = (.ok (), s) := by
    unfold load
    rw [perform_bind, perform_container]
    dsimp only
    rw [h.stage_eq]
    rfl
  show (Operation.perform fs .load).perform s = _
  unfold Operation.perform
  rw [perform_bind, hload]
  rfl

/-- Of a run of quiet operations each gives the answer that it gives by itself. -/
theorem runAll_quiet (steps : List (FileSystem × Operation))
    (hquiet : ∀ step ∈ steps, step.2.isQuiet) :
    (s.runAll steps).container = s.container ∧
      s.outcomes steps = steps.map fun step => answer step.1 s.container file step.2 := by
  induction steps generalizing s with
  | nil => exact ⟨rfl, rfl⟩
  | cons step rest ih =>
    obtain ⟨fs, op⟩ := step
    have hsame := h.container_run fs (hquiet (fs, op) List.mem_cons_self)
    have hnext : Ready (s.run fs op).2.container file := by
      rw [hsame]
      exact h
    obtain ⟨hcontainer, houtcomes⟩ :=
      ih hnext fun step hstep => hquiet step (List.mem_cons_of_mem _ hstep)
    rw [hsame] at hcontainer houtcomes
    refine ⟨hcontainer, ?_⟩
    rw [Session.outcomes, houtcomes, h.outcome_run fs op, List.map_cons]

end Ready

/-- Once a container is loaded, quiet operations leave it as it is, whatever files they meet, and
each answers as if it were the only one. To load it again is one that looks at no file. -/
theorem quiet_of_loaded (path : Path) (offset : UInt64) (naming : Naming)
    (history : List (FileSystem × Operation))
    (hloaded : ((Session.begin path offset naming).runAll history).container.stage = .loaded) :
    let s := (Session.begin path offset naming).runAll history
    (∀ fs, s.run fs .load = (.ok .done, s)) ∧
    (∀ fs op, op.isQuiet → (s.run fs op).2.container = s.container) ∧
    ∀ steps : List (FileSystem × Operation), (∀ step ∈ steps, step.2.isQuiet) →
      (s.runAll steps).container = s.container ∧
      s.outcomes steps = steps.map fun step => (s.run step.1 step.2).1 := by
  intro s
  obtain ⟨_, _, _, _, _, file, _, _, _, _, hgathered⟩ :=
    exists_load path offset naming history hloaded
  have hready : Ready s.container file := hgathered.ready
  refine ⟨hready.run_load, fun fs op hquiet => hready.container_run fs hquiet,
    fun steps hquiet => ?_⟩
  obtain ⟨hcontainer, houtcomes⟩ := hready.runAll_quiet steps hquiet
  refine ⟨hcontainer, ?_⟩
  rw [houtcomes]
  exact List.map_congr_left fun step _ => (hready.outcome_run step.1 step.2).symm

/-- An ExeFS with one section in it. -/
def exefsOf (name content : List UInt8) : List UInt8 :=
  name ++ List.replicate (12 - name.length) 0 ++ octets 4 content.length ++
    List.replicate 0x1f0 0 ++ content

/-- A container that holds this ExeFS right after its header. -/
def containerOf (exefs : List UInt8) : List UInt8 :=
  List.replicate 0x100 0 ++ containerMagic ++ List.replicate 0x9c 0 ++ octets 4 1 ++ octets 4 2 ++
    List.replicate 0x58 0 ++ exefs

/-- A container with an icon, and an image with another one that overrides it. -/
def withImage : FileSystem where
  contents := #[(containerOf (exefsOf (utf8 "icon") (utf8 "EMBD"))).toArray,
    (exefsOf (utf8 "icon") (utf8 "IMAG")).toArray]
  entries := [(["game.cxi"], .file 0), (["game.cxi.exefs"], .file 1)]
  workingDirectory := []

/-- A read of a section that is not there, on whatever files, and a read of one that is. -/
theorem quiet_of_loaded_image :
    let s := (Session.begin ⟨"game.cxi"⟩ 0 .standard).runAll [(withImage, .load)]
    s.container.stage = .loaded ∧ ∀ now : FileSystem,
      s.outcomes [(now, .readSection "banner"), (withImage, .readSection "icon")] =
        [(s.run now (.readSection "banner")).1, (s.run withImage (.readSection "icon")).1] := by
  have hloaded : ((Session.begin ⟨"game.cxi"⟩ 0 .standard).runAll
      [(withImage, .load)]).container.stage = .loaded := by
    rw [runAll_cons, runAll_nil]
    exact loaded_of_requirements (by decide +kernel)
  obtain ⟨-, -, hruns⟩ := quiet_of_loaded ⟨"game.cxi"⟩ 0 .standard [(withImage, .load)] hloaded
  refine ⟨hloaded, fun now => (hruns _ fun step hstep => ?_).2⟩
  simp only [List.mem_cons, List.not_mem_nil, or_false] at hstep
  rcases hstep with rfl | rfl
  · rfl
  · rfl

end Container
end Cartridge
