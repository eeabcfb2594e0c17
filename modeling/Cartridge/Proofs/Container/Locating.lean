import Cartridge.Proofs.Container.AfterLoad
import Cartridge.Proofs.Storage.Overwriting

/-!
# What the header alone decides

The program identifier and the place of the RomFS are read from the header, which is kept also if
the load fails after it. As long as the files stay as they are, no operation changes what is
answered of them: whatever follows the header in its file, and however the load has ended.
-/
namespace Cartridge

open Procedure

/-- The path of a file, and where in it some bytes are. -/
structure Place where
  path : Path
  offset : UInt64
  size : UInt64
  deriving DecidableEq

def FileRange.place (r : FileRange) : Place := ⟨r.path, r.offset, r.size⟩

namespace Container

variable {fs : FileSystem} {path : Path} {offset : UInt64} {naming : Naming} {file : Handle}
  {header : ContainerHeader} {status : Status} {c : Container}

/-! ## How far a container has come -/

/-- The header of the container is known, and its load has ended in one way or the other. -/
structure Headed (fs : FileSystem) (path : Path) (naming : Naming) (file : Handle)
    (header : ContainerHeader) (c : Container) : Prop where
  file_eq : c.file = some file
  header_eq : c.header = some header
  noted : Noted c
  romfs_eq : c.overrides.romfs = .ofFile fs (path.withSuffix naming.romfsSuffix)
  ended : c.stage = .loaded ∨ ∃ status, c.stage = .failed status

/-- The load of the container has ended at its header. -/
structure Refused (status : Status) (file : Handle) (c : Container) : Prop where
  file_eq : c.file = some file
  header_eq : c.header = none
  noted : Noted c
  stage_eq : c.stage = .failed status

/-- How far a container can have come whose header is at this place of a file. -/
inductive Progress (fs : FileSystem) (path : Path) (offset : UInt64) (naming : Naming)
    (file : Handle) (c : Container) : Prop
  | pending (stage_eq : c.stage = .unopened ∨ c.stage = .opened) (bare : Bare c)
  | refused {e : ContainerError} (read : headerAt fs file offset = .error e)
      (refused : Refused e.status file c)
  | headed {header : ContainerHeader} (read : headerAt fs file offset = .ok header)
      (headed : Headed fs path naming file header c)

/-- The container at a place, that was used with these files only. -/
structure Located (fs : FileSystem) (path : Path) (offset : UInt64) (naming : Naming)
    (file : Handle) (c : Container) : Prop where
  path_eq : c.path = path
  offset_eq : c.offset = offset
  naming_eq : c.naming = naming
  file_at : fs.openPath path = .ok file
  file_eq : c.file = none ∨ c.file = some file
  progress : Progress fs path offset naming file c

theorem located_begin (hopen : fs.openPath path = .ok file) :
    Located fs path offset naming file (Session.begin path offset naming).container where
  path_eq := rfl
  offset_eq := rfl
  naming_eq := rfl
  file_at := hopen
  file_eq := Or.inl rfl
  progress := .pending (.inl rfl) bare_new

theorem Located.openResult_eq (h : Located fs path offset naming file c) :
    ∃ stage, openResult fs c = (.ok file, { c with file := some file, stage := stage }) := by
  rcases h.file_eq with hfile | hfile
  · refine ⟨.opened, ?_⟩
    rw [openResult, hfile, h.path_eq, h.file_at]
  · refine ⟨c.stage, ?_⟩
    rw [openResult_of_open hfile, ← hfile]

/-! ## Loading -/

/-- The two ways in which a load ends: at the header, or with it. -/
inductive LoadEnd (fs : FileSystem) (path : Path) (offset : UInt64) (naming : Naming)
    (file : Handle) : Except ContainerError Unit → Container → Prop
  | refused {e e' : ContainerError} {c : Container} (read : headerAt fs file offset = .error e)
      (same : e'.status = e.status) (refused : Refused e.status file c) :
      LoadEnd fs path offset naming file (.error e') c
  | headed {outcome : Except ContainerError Unit} {header : ContainerHeader} {c : Container}
      (read : headerAt fs file offset = .ok header)
      (headed : Headed fs path naming file header c) : LoadEnd fs path offset naming file outcome c

theorem LoadEnd.progress {outcome : Except ContainerError Unit}
    (h : LoadEnd fs path offset naming file outcome c) :
    Progress fs path offset naming file c := by
  cases h with
  | refused hread _ hrefused => exact .refused hread hrefused
  | headed hread hheaded => exact .headed hread hheaded

/-- A first load reads the header before all that may keep it from succeeding after. -/
theorem loadResult_located (h : Located fs path offset naming file c) (hbare : Bare c) :
    LoadEnd fs path offset naming file (loadResult fs c).1 (loadResult fs c).2 ∧
      Located fs path offset naming file (loadResult fs c).2 := by
  obtain ⟨stage, hopen⟩ := h.openResult_eq
  obtain ⟨rfl, rfl, rfl, hplace, -, -⟩ := h
  have hend : LoadEnd fs c.path c.offset c.naming file (loadResult fs c).1 (loadResult fs c).2 ∧
      (loadResult fs c).2.path = c.path ∧ (loadResult fs c).2.offset = c.offset ∧
      (loadResult fs c).2.naming = c.naming ∧ (loadResult fs c).2.file = some file := by
    unfold loadResult stepsResult
    rw [hopen]
    dsimp only
    cases hread : headerAt fs file c.offset with
    | error e =>
      exact ⟨.refused hread rfl ⟨rfl, hbare.header_eq, hbare.noted.congr _ _ _ _, rfl⟩,
        rfl, rfl, rfl, rfl⟩
    | ok header =>
      dsimp only
      rcases sectionsResult_cases fs (c.path.withSuffix c.naming.imageSuffix) file header
          (c := ({ c with file := some file, stage := stage } : Container).validated fs header)
          hbare.extended_eq hbare.compressed_eq hbare.store_eq rfl with
        ⟨e, extended, compressed, place, source, -, hresult⟩ |
        ⟨extended, store, place, -, -, hresult⟩
      · rw [hresult]
        exact ⟨.headed hread ⟨rfl, rfl, .of_store hbare.store_eq rfl rfl rfl rfl, rfl,
          Or.inr ⟨_, rfl⟩⟩, rfl, rfl, rfl, rfl⟩
      · rw [hresult]
        exact ⟨.headed hread ⟨rfl, rfl, .of_store rfl rfl rfl rfl rfl, rfl, Or.inl rfl⟩,
          rfl, rfl, rfl, rfl⟩
  obtain ⟨hend, hpath, hoffset, hnaming, hfile⟩ := hend
  exact ⟨hend, hpath, hoffset, hnaming, hplace, Or.inr hfile, hend.progress⟩

/-- A load, the first one or another, leaves the header known or refused. -/
theorem load_located (h : Located fs path offset naming file c) :
    ∃ outcome next, Runs (load fs) c outcome next ∧ Located fs path offset naming file next ∧
      LoadEnd fs path offset naming file outcome next := by
  cases h.progress with
  | pending hstage hbare =>
    have hrun : Runs (load fs) c _ _ := load_runs (by
      rcases hstage with hstage | hstage
      · exact .inl hstage
      · exact .inr (.inl hstage))
    obtain ⟨hend, hlocated⟩ := loadResult_located h hbare
    exact ⟨_, _, hrun, hlocated, hend⟩
  | refused hread hrefused =>
    exact ⟨_, c, load_of_failed hrefused.stage_eq, h, .refused hread rfl hrefused⟩
  | headed hread hheaded =>
    rcases hheaded.ended with hstage | ⟨status, hstage⟩
    · exact ⟨_, c, load_of_loaded hstage, h, .headed hread hheaded⟩
    · exact ⟨_, c, load_of_failed hstage, h, .headed hread hheaded⟩

theorem Headed.hasHeader (h : Headed fs path naming file header c) : c.hasHeader = true := by
  rw [h.noted.header_eq, h.header_eq]
  rfl

theorem Headed.ensureHeader (h : Headed fs path naming file header c) (now : FileSystem) :
    Runs (ensureHeader now) c (.ok ()) c := by
  rcases h.ended with hstage | ⟨status, hstage⟩
  · exact .bind (load_of_loaded hstage).attempt (.of_pure ())
  · exact ensureHeader_of_failed hstage h.hasHeader now

/-- Asking for the header succeeds exactly if it can be read: what fails after it does not count. -/
theorem ensureHeader_located (h : Located fs path offset naming file c) :
    (∃ header next, headerAt fs file offset = .ok header ∧ Located fs path offset naming file next ∧
      Headed fs path naming file header next ∧ Runs (ensureHeader fs) c (.ok ()) next) ∨
    ∃ e e' next, headerAt fs file offset = .error e ∧ e'.status = e.status ∧
      Runs (ensureHeader fs) c (.error e') next := by
  obtain ⟨outcome, next, hrun, hnext, hend⟩ := load_located h
  cases hend with
  | @refused e e' _ hread hsame hrefused =>
    refine Or.inr ⟨e, e', next, hread, hsame, .bind hrun.attempt (.container_bind ?_)⟩
    rw [hrefused.noted.header_eq, hrefused.header_eq]
    exact .of_throw e'
  | @headed _ header _ hread hheaded =>
    refine Or.inl ⟨header, next, hread, hnext, hheaded, .bind hrun.attempt ?_⟩
    cases outcome with
    | ok _ => exact .of_pure ()
    | error e =>
      refine .container_bind ?_
      rw [hheaded.hasHeader]
      exact .of_note _ _

/-! ## Operations on unchanging files -/

theorem openFile_located : Keeps (Located fs path offset naming file) (openFile fs) := by
  refine keeps_openFile fun c found h hfile hopen => ?_
  rw [h.path_eq] at hopen
  cases hopen.symm.trans h.file_at
  have hbare : Bare c := by
    cases h.progress with
    | pending _ hbare => exact hbare
    | refused _ hrefused => exact nomatch hfile.symm.trans hrefused.file_eq
    | headed _ hheaded => exact nomatch hfile.symm.trans hheaded.file_eq
  exact ⟨h.path_eq, h.offset_eq, h.naming_eq, h.file_at, Or.inr rfl,
    .pending (.inr rfl) (hbare.congr _ _ _ _)⟩

theorem steady_located : Steady fs (Located fs path offset naming file) where
  load := by
    refine .of_runs fun c hc => ?_
    obtain ⟨outcome, next, hrun, hnext, -⟩ := load_located hc
    exact ⟨outcome, next, hrun, hnext⟩
  reopen _ _ _ := openFile_located

/-- The override files that are found again are those that were found before. -/
theorem findOverrides_located :
    Keeps (Located fs path offset naming file) (findOverrides fs) := by
  refine .of_runs fun c h => ⟨_, _, findOverrides_runs fs c, ?_⟩
  obtain ⟨rfl, rfl, rfl, hopen, hfile, hprogress⟩ := h
  refine ⟨rfl, rfl, rfl, hopen, hfile, ?_⟩
  cases hprogress with
  | pending hstage hbare => exact .pending hstage (hbare.congr _ _ _ _)
  | refused hread hrefused =>
    exact .refused hread ⟨hrefused.file_eq, hrefused.header_eq, hrefused.noted.congr _ _ _ _,
      hrefused.stage_eq⟩
  | headed hread hheaded =>
    exact .headed hread ⟨hheaded.file_eq, hheaded.header_eq, hheaded.noted.congr _ _ _ _, rfl,
      hheaded.ended⟩

/-- The naming conventions that are used are these all the time. -/
def KeepsNaming (naming : Naming) (ops : List Operation) : Prop :=
  ∀ used, .useNaming used ∈ ops → used = naming

theorem perform_located {op : Operation} (h : ∀ used, op = .useNaming used → used = naming) :
    Keeps (Located fs path offset naming file) (op.perform fs) := by
  cases op with
  | findOverrides => exact .bind findOverrides_located fun _ => .of_pure _
  | useNaming used =>
    refine .bind (.of_update fun c hc => ?_) fun _ => .of_pure _
    have hsame : c.withNaming used = c := by
      rw [h used rfl, withNaming, ← hc.naming_eq]
    rw [hsame]
    exact hc
  | _ => exact steady_located.perform _ rfl fun _ => openFile_located

theorem located_runAll {ops : List Operation} (h : KeepsNaming naming ops) {s : Session}
    (hs : Located fs path offset naming file s.container) :
    Located fs path offset naming file (s.runAll (ops.map (Prod.mk fs))).container := by
  induction ops generalizing s with
  | nil => exact hs
  | cons op rest ih =>
    refine ih (fun used hused => h used (List.mem_cons_of_mem _ hused)) ?_
    exact perform_located (fun used hop => h used (hop ▸ List.mem_cons_self)) s hs

/-! ## The answers -/

/-- An answer locates a range at this place, or says that there is none. -/
inductive Locates : Except ContainerError Answer → Option Place → Prop
  | found (range : FileRange) : Locates (.ok (.range range)) (some range.place)
  | absent (what : String) : Locates (.error (.notUsed what)) none

/-- A file that overrides the RomFS is taken as a whole. -/
def overridePlace? (fs : FileSystem) (p : Path) : Option Place :=
  (fs.wholeFile? p).map fun bytes => ⟨p, 0, UInt64.ofNat bytes.size⟩

/-- Where a header has the RomFS of the container at this place. -/
def embeddedPlace? (header : List UInt8) (path : Path) (offset : UInt64) : Option Place :=
  if wordAt header 0x1b4 4 = 0 then none
  else
    some ⟨path, offset + UInt64.ofNat (0x200 * wordAt header 0x1b0 4),
      UInt64.ofNat (0x200 * wordAt header 0x1b4 4)⟩

/-- A file at the path is found and opened, and nothing else is. -/
theorem locates_overrideRomfsAnswer {p : Path} (h : c.overrides.romfs = .ofFile fs p) :
    Locates ((overrideRomfsAnswer fs c).map .range) (overridePlace? fs p) := by
  unfold overrideRomfsAnswer overridePlace?
  rw [h, Source.ofFile, FileSystem.isFile_eq_isSome]
  cases hwhole : fs.wholeFile? p with
  | none => exact .absent _
  | some bytes =>
    obtain ⟨number, hopen, rfl⟩ := FileSystem.wholeFile?_eq_some_iff.mp hwhole
    have hpath : fs.openPath p = .ok (.file number) := by
      rw [FileSystem.openPath, hopen]
      rfl
    simp only [Option.isSome_some, if_true, hpath]
    exact .found ⟨.file number, p, 0, fs.sizeOf (.file number)⟩

/-- The RomFS that the header declares is where two of its numbers say. -/
theorem locates_embeddedRomfsAnswer {block : Block ContainerHeader.byteSize}
    (hnoted : Noted c) (h : c.header = some (.ofBlock block)) :
    Locates ((embeddedRomfsAnswer c file).map .range)
      (embeddedPlace? block.toList c.path c.offset) := by
  have hlist := block.toList_eq_window
  have hdeclared := ContainerHeader.hasRomfs_ofBlock hlist
  have hoffset := ContainerHeader.romfs_byteOffset_ofBlock hlist
  have hsize := ContainerHeader.romfs_byteSize_ofBlock hlist
  simp only [Nat.zero_add] at hdeclared hoffset hsize
  rw [hnoted.embeddedRomfsAnswer_eq h, embeddedPlace?, ← hoffset, ← hsize, UInt64.ofNat_toNat,
    UInt64.ofNat_toNat]
  by_cases hword : wordAt block.toList 0x1b4 4 = 0
  · have hnone : (ContainerHeader.ofBlock block).hasRomfs = false :=
      (Bool.not_eq_true _).mp fun hromfs => hdeclared.mp hromfs hword
    rw [if_pos hword, hnone]
    exact .absent _
  · rw [if_neg hword, hdeclared.mpr hword]
    exact .found ⟨file, c.path, _, _⟩

theorem locates_romfsAnswer {p : Path} {block : Block ContainerHeader.byteSize} (hnoted : Noted c)
    (hromfs : c.overrides.romfs = .ofFile fs p) (hheader : c.header = some (.ofBlock block)) :
    Locates ((romfsAnswer fs c file).map .range)
      ((overridePlace? fs p).or (embeddedPlace? block.toList c.path c.offset)) := by
  have hoverride := locates_overrideRomfsAnswer hromfs
  have hembedded : Locates ((embeddedRomfsAnswer c file).map .range) _ :=
    locates_embeddedRomfsAnswer hnoted hheader
  unfold romfsAnswer
  cases hanswer : overrideRomfsAnswer fs c with
  | ok range =>
    rw [hanswer] at hoverride
    cases hplace : overridePlace? fs p with
    | none =>
      rw [hplace] at hoverride
      cases hoverride
    | some place =>
      rw [hplace] at hoverride
      exact hoverride
  | error e =>
    rw [hanswer] at hoverride
    cases hplace : overridePlace? fs p with
    | none => exact hembedded
    | some place =>
      rw [hplace] at hoverride
      cases hoverride

/-! ## Answers while the files stay as they are -/

section

variable {s : Session} (h : Located fs path offset naming file s.container)
include h

/-- With a header that can be read, the answers are those of the header and of the override file. -/
theorem answers_of_header {block : Block ContainerHeader.byteSize}
    (hread : headerAt fs file offset = .ok (.ofBlock block)) :
    let override := overridePlace? fs (path.withSuffix naming.romfsSuffix)
    (s.run fs .readProgramId).1 =
        .ok (.programId (UInt64.ofNat (wordAt block.toList 0x118 8))) ∧
      Locates (s.run fs .locateRomfs).1
        (override.or (embeddedPlace? block.toList path offset)) ∧
      Locates (s.run fs .locateOverrideRomfs).1 override := by
  intro override
  rcases ensureHeader_located h with ⟨header, next, hheader, hnext, hheaded, hrun⟩ |
    ⟨e, _, _, herror, -⟩
  · cases hread.symm.trans hheader
    have hagain := hheaded.ensureHeader fs
    have hprogram := (readProgramId_runs hrun).map Answer.programId
    have hromfs := (locateRomfs_runs hrun hagain hheaded.file_eq).map Answer.range
    have hoverride := (locateOverrideRomfs_runs hrun).map Answer.range
    have hlocated : Locates ((romfsAnswer fs next file).map .range) _ :=
      locates_romfsAnswer hheaded.noted hheaded.romfs_eq hheaded.header_eq
    rw [hnext.path_eq, hnext.offset_eq] at hlocated
    refine ⟨?_, ?_, ?_⟩
    · have hid := ContainerHeader.programId_ofBlock block.toList_eq_window
      rw [Nat.zero_add] at hid
      rw [Session.run, Operation.perform, hprogram.outcome_eq, hheaded.header_eq, ← hid,
        UInt64.ofNat_toNat]
      rfl
    · rw [Session.run, Operation.perform, hromfs.outcome_eq]
      exact hlocated
    · rw [Session.run, Operation.perform, hoverride.outcome_eq]
      exact locates_overrideRomfsAnswer hheaded.romfs_eq
  · exact nomatch hread.symm.trans herror

/-- Without one, every question about the header has the status of that. -/
theorem answers_of_no_header {e : ContainerError} (hread : headerAt fs file offset = .error e) :
    ∀ op ∈ [Operation.readProgramId, .locateRomfs, .locateOverrideRomfs],
      ∃ found, (s.run fs op).1 = .error found ∧ found.status = e.status := by
  rcases ensureHeader_located h with ⟨header, _, hheader, -⟩ | ⟨_, e', next, herror, hsame, hrun⟩
  · exact nomatch hread.symm.trans hheader
  · cases hread.symm.trans herror
    have hprogram : Runs (readProgramId fs) s.container (.error e') next := .bind_error hrun
    have hromfs : Runs (locateRomfs fs) s.container (.error e') next := .bind_error hrun
    have hoverride : Runs (locateOverrideRomfs fs) s.container (.error e') next := .bind_error hrun
    intro op hop
    simp only [List.mem_cons, List.not_mem_nil, or_false] at hop
    rcases hop with rfl | rfl | rfl
    · exact ⟨e', (hprogram.map Answer.programId).outcome_eq, hsame⟩
    · exact ⟨e', (hromfs.map Answer.range).outcome_eq, hsame⟩
    · exact ⟨e', (hoverride.map Answer.range).outcome_eq, hsame⟩

end

/-- Bytes that are there are a header exactly if they have the magic number of one. -/
theorem headerAt_of_magic (hread : fs.Readable file offset.toNat 0x200) :
    let bytes := ((fs.bytesBehind file).drop offset.toNat).take 0x200
    ∃ block : Block ContainerHeader.byteSize, block.toList = bytes ∧
      ((bytes.drop 0x100).take 4 = containerMagic → headerAt fs file offset = .ok (.ofBlock block)) ∧
      ((bytes.drop 0x100).take 4 ≠ containerMagic →
        ∃ magic, headerAt fs file offset = .error (.header (.invalidMagic magic))) := by
  intro bytes
  obtain ⟨block, hlist, hheader⟩ := headerAt_of_readable hread
  have hmagic := ContainerHeader.magic_ofBlock hlist
  have hwindow : (bytes.drop 0x100).take 4 =
      ((fs.bytesBehind file).drop (offset.toNat + 0x100)).take 4 :=
    window_window _ _ _ (by decide)
  refine ⟨block, hlist, fun hvalid => ?_, fun hother => ⟨(ContainerHeader.ofBlock block).magic, ?_⟩⟩
  · rw [hwindow, ← hmagic] at hvalid
    rw [hheader, ContainerHeader.validate, if_pos hvalid]
    rfl
  · rw [hwindow, ← hmagic] at hother
    rw [hheader, ContainerHeader.validate, if_neg hother]
    rfl

/-- Two containers whose files agree on the header may differ in all the rest: whatever was done
with each, on its own files, the program and the place of the RomFS are the same. They are told from
the header, and from the file that overrides the RomFS, whether or not a load has succeeded. If the
header is none, all of this fails in both. -/
theorem same_of_header {other : FileSystem} {file' : Handle} {ops ops' : List Operation}
    (hopen : fs.openPath path = .ok file) (hopen' : other.openPath path = .ok file')
    (hread : fs.Readable file offset.toNat 0x200)
    (hread' : other.Readable file' offset.toNat 0x200)
    (hbytes : ((fs.bytesBehind file).drop offset.toNat).take 0x200 =
      ((other.bytesBehind file').drop offset.toNat).take 0x200)
    (hromfs : fs.wholeFile? (path.withSuffix naming.romfsSuffix) =
      other.wholeFile? (path.withSuffix naming.romfsSuffix))
    (hops : KeepsNaming naming ops) (hops' : KeepsNaming naming ops') :
    let header := ((fs.bytesBehind file).drop offset.toNat).take 0x200
    let override := overridePlace? fs (path.withSuffix naming.romfsSuffix)
    let romfs := override.or (embeddedPlace? header path offset)
    let id := UInt64.ofNat (wordAt header 0x118 8)
    let s := (Session.begin path offset naming).runAll (ops.map (Prod.mk fs))
    let s' := (Session.begin path offset naming).runAll (ops'.map (Prod.mk other))
    ((header.drop 0x100).take 4 = containerMagic →
      ((s.run fs .readProgramId).1 = .ok (.programId id) ∧
        (s'.run other .readProgramId).1 = .ok (.programId id)) ∧
      (Locates (s.run fs .locateRomfs).1 romfs ∧ Locates (s'.run other .locateRomfs).1 romfs) ∧
      (Locates (s.run fs .locateOverrideRomfs).1 override ∧
        Locates (s'.run other .locateOverrideRomfs).1 override)) ∧
    ((header.drop 0x100).take 4 ≠ containerMagic →
      ∀ op ∈ [Operation.readProgramId, .locateRomfs, .locateOverrideRomfs], ∃ e e',
        (s.run fs op).1 = .error e ∧ e.status = .invalidFormat ∧
        (s'.run other op).1 = .error e' ∧ e'.status = .invalidFormat) := by
  intro header override romfs id s s'
  have hlocated : Located fs path offset naming file s.container :=
    located_runAll hops (located_begin hopen)
  have hlocated' : Located other path offset naming file' s'.container :=
    located_runAll hops' (located_begin hopen')
  have hoverride : override = overridePlace? other (path.withSuffix naming.romfsSuffix) := by
    show (fs.wholeFile? _).map _ = _
    rw [hromfs]
    rfl
  obtain ⟨block, hblock, hvalid, hother⟩ := headerAt_of_magic hread
  obtain ⟨block', hblock', hvalid', hother'⟩ := headerAt_of_magic hread'
  rw [← hbytes] at hblock' hvalid' hother'
  constructor
  · intro hmagic
    obtain ⟨hprogram, hplace, hfound⟩ := answers_of_header hlocated (hvalid hmagic)
    obtain ⟨hprogram', hplace', hfound'⟩ := answers_of_header hlocated' (hvalid' hmagic)
    rw [hblock] at hprogram hplace
    rw [hblock'] at hprogram' hplace'
    rw [← hoverride] at hplace' hfound'
    exact ⟨⟨hprogram, hprogram'⟩, ⟨hplace, hplace'⟩, hfound, hfound'⟩
  · intro hmagic op hop
    obtain ⟨_, herror⟩ := hother hmagic
    obtain ⟨_, herror'⟩ := hother' hmagic
    obtain ⟨e, hfails, he⟩ := answers_of_no_header hlocated herror op hop
    obtain ⟨e', hfails', he'⟩ := answers_of_no_header hlocated' herror' op hop
    exact ⟨e, e', hfails, he, hfails', he'⟩

/-- The header of a container with an extended header after it, and a RomFS of one unit. -/
def extendedContainer : List UInt8 :=
  List.replicate 0x100 0 ++ containerMagic ++ List.replicate 0x14 0 ++ octets 8 0x4000000123400 ++
    List.replicate 0x60 0 ++ octets 4 0x400 ++ List.replicate 0x2c 0 ++ octets 4 5 ++
    octets 4 1 ++ List.replicate 0x48 0

/-- This container with nothing after its header. -/
def cutOff : FileSystem where
  contents := #[extendedContainer.toArray]
  entries := [(["game.cxi"], .file 0)]
  workingDirectory := []

/-- This container with an extended header that names the same program, and with its RomFS. -/
def complete : FileSystem where
  contents := #[(extendedContainer ++ List.replicate 0x200 0 ++ octets 8 0x4000000123400 ++
    List.replicate 0x7f8 0).toArray]
  entries := [(["game.cxi"], .file 0)]
  workingDirectory := []

/-- The container that is cut off cannot be loaded, and still has its RomFS where the other has. -/
theorem same_of_header_cutOff :
    (Session.loading cutOff ⟨"game.cxi"⟩ 0 .standard).container.stage ≠ .loaded ∧
      (Session.loading complete ⟨"game.cxi"⟩ 0 .standard).container.stage = .loaded ∧
      Locates ((Session.loading cutOff ⟨"game.cxi"⟩ 0 .standard).run cutOff .locateRomfs).1
        (some ⟨⟨"game.cxi"⟩, 0xa00, 0x200⟩) ∧
      Locates ((Session.loading complete ⟨"game.cxi"⟩ 0 .standard).run complete .locateRomfs).1
        (some ⟨⟨"game.cxi"⟩, 0xa00, 0x200⟩) := by
  have hopen : cutOff.openPath ⟨"game.cxi"⟩ = .ok (.file 0) := rfl
  have hopen' : complete.openPath ⟨"game.cxi"⟩ = .ok (.file 0) := rfl
  have hfails : ¬(Session.loading cutOff ⟨"game.cxi"⟩ 0 .standard).container.stage = .loaded := by
    rw [loaded_iff hopen]
    rintro ⟨⟨-, -, hfits, -⟩, -⟩
    revert hfits
    decide +kernel
  have hloads : (Session.loading complete ⟨"game.cxi"⟩ 0 .standard).container.stage = .loaded :=
    loading_of_requirements (by decide +kernel)
  have hread : cutOff.Readable (.file 0) (0 : UInt64).toNat 0x200 := by decide +kernel
  have hread' : complete.Readable (.file 0) (0 : UInt64).toNat 0x200 := by decide +kernel
  have hnaming : KeepsNaming .standard [.load] := by
    intro used hused
    cases List.mem_singleton.mp hused
  obtain ⟨hvalid, -⟩ := same_of_header hopen hopen' hread hread' (by decide +kernel)
    (by decide +kernel) hnaming hnaming
  obtain ⟨-, ⟨hromfs, hromfs'⟩, -⟩ := hvalid (by decide +kernel)
  have hplace : (overridePlace? cutOff (Path.withSuffix ⟨"game.cxi"⟩ Naming.standard.romfsSuffix)).or
      (embeddedPlace? (((cutOff.bytesBehind (.file 0)).drop (0 : UInt64).toNat).take 0x200)
        ⟨"game.cxi"⟩ 0) = some ⟨⟨"game.cxi"⟩, 0xa00, 0x200⟩ := by
    decide +kernel
  rw [hplace, List.map_cons, List.map_nil] at hromfs hromfs'
  rw [Session.runAll_load] at hromfs hromfs'
  exact ⟨hfails, hloads, hromfs, hromfs'⟩

end Container
end Cartridge
