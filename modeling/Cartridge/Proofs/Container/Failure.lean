import Cartridge.Proofs.Container.Completion

/-!
# Failed containers

A container whose loading failed keeps its status, and answers with it, whatever is done with it
and whatever becomes of the files, as long as its file is not opened for the first time: then
the failure is forgotten.
-/
namespace Cartridge

open Procedure Container

variable {s : Session} {path : Path} {status : Status} {file : Option Handle}
  {fs : FileSystem}

namespace Container

/-- The container at a path. Its file is open if it has a header or a RomFS is noted. -/
structure Sound (path : Path) (c : Container) : Prop where
  path_eq : c.path = path
  open_of_header : c.header.isSome ∨ c.hasRomfs = true → c.file.isSome

theorem WellFormed.sound {offset : UInt64} {c : Container} (h : WellFormed path offset c) :
    Sound path c := by
  refine ⟨h.path_eq, fun hread => ?_⟩
  have hheader : c.header.isSome := hread.elim id h.formed.noted.header_of_romfs
  have hbare : ¬Bare c := by
    intro hbare
    rw [hbare.header_eq] at hheader
    cases hheader
  cases h.formed with
  | untouched _ _ hnone => exact absurd hnone hbare
  | opened _ _ hnone => exact absurd hnone hbare
  | refused _ hnone => exact absurd hnone hbare
  | broken _ hfile =>
    rw [hfile]
    rfl
  | loaded hgathered =>
    rw [hgathered.file_eq]
    rfl

end Container

theorem sound_runAll_begin (path : Path) (offset : UInt64) (naming : Naming)
    (history : List (FileSystem × Operation)) :
    Sound path ((Session.begin path offset naming).runAll history).container :=
  (wellFormed_runAll path offset naming history).sound

/-! ## The answers of a failed container -/

/-- What a failed container answers: the status of its failure, without a look at the files. -/
structure Failed (status : Status) (s : Session) : Prop where
  stage : s.container.stage = .failed status
  load : ∀ fs, s.run fs .load = (.error (.previouslyFailed status), s)
  readSection : ∀ fs name, ∃ e, s.run fs (.readSection name) = (.error e, s) ∧ e.status = status
  readOverrideSection : ∀ fs name, ∃ e,
    s.run fs (.readOverrideSection name) = (.error e, s) ∧ e.status = status

theorem perform_load_of_failed (h : s.container.stage = .failed status) :
    (load fs).perform s = (.error (.previouslyFailed status), s) := by
  simp only [load, perform_bind, perform_container, h, perform_throw]

theorem failed_of_stage (h : s.container.stage = .failed status) : Failed status s where
  stage := h
  load fs := by
    simp only [Session.run, Operation.perform, perform_bind, perform_load_of_failed h]
  readSection fs name := by
    refine ⟨.previouslyFailed status, ?_, rfl⟩
    simp only [Session.run, Operation.perform, Container.readSection, perform_bind,
      perform_load_of_failed h]
  readOverrideSection fs name := by
    refine ⟨.previouslyFailed status, ?_, rfl⟩
    simp only [Session.run, Operation.perform, Container.readOverrideSection, perform_bind,
      perform_load_of_failed h]

/-! ## How long a failure lasts -/

/-- The container failed with this status, and this is the file it had open then. -/
structure Frozen (path : Path) (status : Status) (file : Option Handle) (c : Container) :
    Prop where
  sound : Sound path c
  stage : c.stage = .failed status
  file_eq : c.file = file

/-- The step asks for the file of the container, and there is one. -/
def Opens (path : Path) (step : FileSystem × Operation) : Prop :=
  step.2 = .openFile ∧ ∃ file, step.1.openPath path = .ok file

theorem load_frozen : Keeps (Frozen path status file) (load fs) := by
  intro s h
  rw [perform_load_of_failed h.stage]
  exact h

theorem openFile_frozen (h : file = none → ∀ opened, fs.openPath path ≠ .ok opened) :
    Keeps (Frozen path status file) (openFile fs) := by
  refine keeps_openFile fun c opened hc hfile hopen => ?_
  rw [hc.sound.path_eq] at hopen
  exact absurd hopen (h (hc.file_eq.symm.trans hfile) opened)

theorem lasting_frozen : Lasting fs (Frozen path status file) where
  load := load_frozen
  reopen c hc hheader := by
    have hfile : file.isSome := by
      rw [← hc.file_eq]
      exact hc.sound.open_of_header hheader
    refine openFile_frozen fun hnone => ?_
    rw [hnone] at hfile
    cases hfile
  overrides _ _ h := ⟨⟨h.sound.path_eq, h.sound.open_of_header⟩, h.stage, h.file_eq⟩
  naming _ _ h := ⟨⟨h.sound.path_eq, h.sound.open_of_header⟩, h.stage, h.file_eq⟩

theorem run_frozen {op : Operation} (h : Frozen path status file s.container)
    (hstep : file = none → ¬Opens path (fs, op)) :
    Frozen path status file (s.run fs op).2.container := by
  refine lasting_frozen.perform op (fun hop => openFile_frozen fun hfile opened hopen => ?_) s h
  exact hstep hfile ⟨hop, opened, hopen⟩

/-- Opening the file for the first time ends the failure. -/
theorem run_opened {op : Operation} (h : Frozen path status none s.container)
    (hstep : Opens path (fs, op)) : (s.run fs op).2.container.stage = .opened := by
  obtain ⟨rfl, opened, hopen⟩ := hstep
  have hopen' : fs.openPath s.container.path = .ok opened := by
    rw [h.sound.path_eq]
    exact hopen
  have hrun : Runs (Operation.openFile.perform fs) s.container (.ok .done)
      { s.container with file := some opened, stage := .opened } :=
    .bind (.bind (openFile_of_ok h.file_eq hopen') (.of_pure _)) (.of_pure _)
  rw [Session.run, hrun.container_eq]

theorem stage_runAll_iff (after : List (FileSystem × Operation))
    (h : Frozen path status file s.container) :
    (∀ reached, reached <+: after → (s.runAll reached).container.stage = .failed status) ↔
      (file.isSome ∨ ∀ step ∈ after, ¬Opens path step) := by
  induction after generalizing s with
  | nil =>
    constructor
    · intro _
      exact Or.inr fun step hstep => by cases hstep
    · intro _ reached hreached
      rw [List.prefix_nil.mp hreached]
      exact h.stage
  | cons step rest ih =>
    obtain ⟨fs, op⟩ := step
    by_cases hstep : file = none ∧ Opens path (fs, op)
    · obtain ⟨rfl, hopens⟩ := hstep
      have hopened := run_opened h hopens
      constructor
      · intro hall
        have hfailed := hall [(fs, op)] ⟨rest, rfl⟩
        exact absurd (hopened.symm.trans hfailed) (by simp)
      · rintro (hsome | hnone)
        · cases hsome
        · exact absurd hopens (hnone _ List.mem_cons_self)
    · have hnext : Frozen path status file (s.run fs op).2.container :=
        run_frozen h fun hfile hopens => hstep ⟨hfile, hopens⟩
      have hrest := ih hnext
      constructor
      · intro hall
        have htail := hrest.mp fun reached hreached =>
          hall ((fs, op) :: reached) (List.cons_prefix_cons.mpr ⟨rfl, hreached⟩)
        rcases htail with hsome | hnone
        · exact Or.inl hsome
        · cases file with
          | some opened => exact Or.inl rfl
          | none =>
            refine Or.inr fun other hother => ?_
            rcases List.mem_cons.mp hother with rfl | hother
            · exact fun hopens => hstep ⟨rfl, hopens⟩
            · exact hnone other hother
      · intro hcond reached hreached
        cases reached with
        | nil => exact h.stage
        | cons first more =>
          obtain ⟨rfl, hmore⟩ := List.cons_prefix_cons.mp hreached
          have htail := hcond.imp_right fun hnone other hother =>
            hnone other (List.mem_cons_of_mem _ hother)
          exact hrest.mpr htail more hmore

/-- A container that failed to load stays failed throughout what is done next exactly if its file
was open by then, or is not opened by any of the steps. -/
theorem failed_runAll_iff (path : Path) (offset : UInt64) (naming : Naming)
    (before after : List (FileSystem × Operation)) (status : Status)
    (h : ((Session.begin path offset naming).runAll before).container.stage = .failed status) :
    (∀ reached, reached <+: after →
      Failed status (((Session.begin path offset naming).runAll before).runAll reached)) ↔
    (((Session.begin path offset naming).runAll before).container.file.isSome ∨
      ∀ step ∈ after, ¬Opens path step) := by
  have hfrozen := Frozen.mk (sound_runAll_begin path offset naming before) h rfl
  rw [← stage_runAll_iff after hfrozen]
  constructor
  · intro hfailed reached hreached
    exact (hfailed reached hreached).stage
  · intro hstage reached hreached
    exact failed_of_stage (hstage reached hreached)

/-- No file at all. -/
def noFiles : FileSystem := .empty []

/-- One file, of a single byte. -/
def shortFile : FileSystem := ⟨#[#[0]], [(["game.cxi"], .file 0)], []⟩

/-- A container whose file was missing when it was loaded. -/
def missing : Session := (Session.begin ⟨"game.cxi"⟩ 0 .standard).runAll [(noFiles, .load)]

theorem failed_runAll_missing :
    missing.container.stage = .failed .failed ∧
      ∀ reached,
        reached <+: [(shortFile, .load), (noFiles, .openFile), (shortFile, .locateRomfs)] →
          Failed .failed (missing.runAll reached) := by
  have hstage : missing.container.stage = .failed .failed := by decide +kernel
  refine ⟨hstage, (failed_runAll_iff _ _ _ [(noFiles, .load)] _ _ hstage).mpr (Or.inr ?_)⟩
  intro step hstep hopens
  obtain ⟨hop, opened, hopen⟩ := hopens
  simp only [List.mem_cons, List.not_mem_nil, or_false] at hstep
  rcases hstep with rfl | rfl | rfl
  · cases hop
  · cases hopen
  · cases hop

/-- If the file is there later, opening it makes the next load read it. -/
theorem failed_forgotten :
    missing.container.stage = .failed .failed ∧
      (missing.runAll [(shortFile, .openFile)]).container.stage = .opened ∧
      ((missing.runAll [(shortFile, .openFile)]).run shortFile .load).1 =
        .error (.file (.shortRead 0 0x200 .endOfFile)) :=
  ⟨by decide +kernel, by decide +kernel, rfl⟩

end Cartridge
