import Cartridge.Proofs.Container.AfterLoad
import Cartridge.Proofs.Container.Answers
import Cartridge.Proofs.Container.Failure

/-!
# Other naming conventions after the load

The conventions say by which names override files are found. These are looked for while a container
is loaded, and conventions that it is given later do not change what was found. But whether a
section can be overridden at all is asked of the conventions whenever the section is read, and these
are then the later ones.
-/
namespace Cartridge

open Procedure

/-- Whether the loading has come to its end, in one way or the other. -/
def Stage.isSettled : Stage → Bool
  | .loaded | .failed _ => true
  | .unopened | .opened | .headerValidated => false

namespace Operation

/-- The operations that load a container or read from it. -/
def isReading : Operation → Bool
  | .openFile | .findOverrides | .useNaming _ => false
  | _ => true

/-- The operations that are content with a header. -/
def asksHeader : Operation → Bool
  | .locateRomfs | .locateOverrideRomfs | .readProgramId => true
  | _ => false

/-- The section that is asked for. -/
def section? : Operation → Option String
  | .readSection name | .readOverrideSection name => some name
  | _ => none

theorem section?_of_asksHeader {op : Operation} (h : op.asksHeader) : op.section? = none := by
  cases op with
  | locateRomfs | locateOverrideRomfs | readProgramId => rfl
  | _ => cases h

end Operation

namespace Naming

variable {n other : Naming} {name : String}

/-- Both conventions have a file name for the section, or neither has. -/
def AgreeOn (n other : Naming) (name : String) : Prop :=
  (n.fileName? name).isSome = (other.fileName? name).isSome

instance : Decidable (n.AgreeOn other name) := inferInstanceAs (Decidable (_ = _))

theorem agreeOn_iff :
    n.AgreeOn other name ↔ (other.fileName? name = none ↔ n.fileName? name = none) := by
  rw [AgreeOn, Bool.eq_iff_iff, Option.isSome_iff_ne_none, Option.isSome_iff_ne_none,
    Ne, Ne, Decidable.not_iff_not]
  exact Iff.comm

theorem isSome_fileName?_iff :
    (n.fileName? name).isSome ↔ name ∈ n.files.map SectionFile.name := by
  rw [fileName?, Option.isSome_map, List.find?_isSome, List.mem_map]
  simp only [decide_eq_true_eq]

/-- Only the names of the sections count, and neither the file names nor the suffixes. -/
theorem agreeOn_of_names (h : n.files.map SectionFile.name = other.files.map SectionFile.name)
    (name : String) : n.AgreeOn other name := by
  rw [AgreeOn, Bool.eq_iff_iff, isSome_fileName?_iff, isSome_fileName?_iff, h]

end Naming

namespace Container

variable {fs : FileSystem} {path : Path} {offset : UInt64} {naming renamed : Naming}
  {file : Handle} {status : Status} {c : Container} {op : Operation} {name : String}

/-! ## The answers under other conventions -/

theorem Ready.withNaming (h : Ready c file) (naming : Naming) : Ready (c.withNaming naming) file :=
  ⟨h.stage_eq, h.file_eq⟩

theorem next_of_reading (h : op.isReading) : next fs c op = c := by
  cases op with
  | openFile | findOverrides | useNaming _ => cases h
  | _ => rfl

theorem overrideAnswer_withNaming (h : c.naming.AgreeOn naming name) (fs : FileSystem) :
    overrideAnswer fs (c.withNaming naming) name = overrideAnswer fs c name := by
  unfold overrideAnswer
  simp only [withNaming, Naming.agreeOn_iff.mp h]

/-- Nothing that a loaded container answers depends on the conventions but whether they have a file
name for the section that is asked for. -/
theorem answer_withNaming (h : ∀ name, op.section? = some name → c.naming.AgreeOn naming name)
    (fs : FileSystem) (file : Handle) :
    answer fs (c.withNaming naming) file op = answer fs c file op := by
  cases op with
  | readSection name =>
    rw [answer, answer, sectionAnswer, overrideAnswer_withNaming (h name rfl)]
    rfl
  | readOverrideSection name =>
    rw [answer, answer, overrideAnswer_withNaming (h name rfl)]
  | _ => rfl

/-- A section is not found exactly if the conventions have no file name for it. -/
theorem answer_eq_notFound_iff :
    answer fs c file (.readOverrideSection name) = .error (.notFound name) ↔
      c.naming.fileName? name = none := by
  rw [answer, overrideAnswer]
  by_cases hname : c.naming.fileName? name = none
  · rw [if_pos hname]
    exact iff_of_true rfl hname
  · rw [if_neg hname]
    refine iff_of_false (fun hfound => ?_) hname
    cases hread : (c.overrides.section? name).path?.bind fs.wholeFile? with
    | some bytes =>
      rw [hread] at hfound
      cases hfound
    | none =>
      rw [hread] at hfound
      cases hfound

theorem answer_withNaming_ne (h : ¬c.naming.AgreeOn naming name) :
    answer fs (c.withNaming naming) file (.readOverrideSection name) ≠
      answer fs c file (.readOverrideSection name) := by
  intro hsame
  have hrenamed : answer fs (c.withNaming naming) file (.readOverrideSection name) =
      .error (.notFound name) ↔ naming.fileName? name = none := answer_eq_notFound_iff
  rw [hsame, answer_eq_notFound_iff] at hrenamed
  exact h (Naming.agreeOn_iff.mpr hrenamed.symm)

/-! ## Containers whose loading has ended -/

/-- A container that is loaded, or that failed to load; its file is open if it has a header. -/
inductive Settled (c : Container) : Prop
  | loaded {file : Handle} (ready : Ready c file)
  | failed {status : Status} (stage_eq : c.stage = .failed status)
      (open_of_header : c.hasHeader = true → c.file.isSome)

theorem WellFormed.settled (h : WellFormed path offset c) (hstage : c.stage.isSettled) :
    Settled c := by
  have hopen : c.hasHeader = true → c.file.isSome := fun hheader =>
    h.sound.open_of_header (.inl (h.formed.noted.header_eq ▸ hheader))
  cases h.formed with
  | untouched hunopened _ _ =>
    rw [hunopened] at hstage
    cases hstage
  | opened hopened _ _ =>
    rw [hopened] at hstage
    cases hstage
  | refused hfailed _ => exact .failed hfailed hopen
  | broken hfailed _ => exact .failed hfailed hopen
  | loaded hgathered => exact .loaded hgathered.ready

/-- A failed container answers with its failure, but for what its header may still answer. -/
theorem perform_failed (hstage : c.stage = .failed status) (hop : op.isReading)
    (hnone : op.asksHeader → c.hasHeader ≠ true) (fs : FileSystem) :
    Runs (op.perform fs) c (.error (.previouslyFailed status)) c := by
  have hload : Runs (load fs) c (.error (.previouslyFailed status)) c := load_of_failed hstage
  have hheader : op.asksHeader →
      Runs (ensureHeader fs) c (.error (.previouslyFailed status)) c := by
    intro hasks
    refine .bind hload.attempt (.container_bind ?_)
    rw [if_neg (hnone hasks)]
    exact .of_throw _
  cases op with
  | openFile | findOverrides | useNaming _ => cases hop
  | load => exact .bind_error hload
  | readSection name => exact .bind_error (.bind_error hload)
  | readOverrideSection name => exact .bind_error (.bind_error hload)
  | locateRomfs => exact .bind_error (.bind_error (hheader rfl))
  | locateOverrideRomfs => exact .bind_error (.bind_error (hheader rfl))
  | readProgramId => exact .bind_error (.bind_error (hheader rfl))

/-- What the header answers, it answers as for a loaded container. -/
theorem perform_headed (hstage : c.stage = .failed status) (hheader : c.hasHeader = true)
    (hfile : c.file = some file) (hop : op.asksHeader) (fs : FileSystem) :
    Runs (op.perform fs) c (answer fs c file op) c := by
  have hrun := ensureHeader_of_failed hstage hheader fs
  cases op with
  | locateRomfs => exact (locateRomfs_runs hrun hrun hfile).map _
  | locateOverrideRomfs => exact (locateOverrideRomfs_runs hrun).map _
  | readProgramId => exact .bind (readProgramId_runs hrun) (.of_pure _)
  | _ => cases hop

/-- The container has failed, or the operation asks for no section that only one of the two
conventions has a file name for. -/
def Unaffected (c : Container) (naming : Naming) (op : Operation) : Prop :=
  (∃ status, c.stage = .failed status) ∨
    ∀ name, op.section? = some name → c.naming.AgreeOn naming name

/-- Under any conventions an operation leaves a container as it is whose loading has ended. -/
theorem perform_withNaming (h : Settled c) (hop : op.isReading) (fs : FileSystem)
    (naming : Naming) :
    ∃ outcome renamed, Runs (op.perform fs) c outcome c ∧
      Runs (op.perform fs) (c.withNaming naming) renamed (c.withNaming naming) ∧
      (Unaffected c naming op → renamed = outcome) := by
  cases h with
  | @loaded file hready =>
    have hrun := perform_ready hready fs op
    have hrun' := perform_ready (hready.withNaming naming) fs op
    rw [next_of_reading hop] at hrun hrun'
    refine ⟨_, _, hrun, hrun', ?_⟩
    rintro (⟨status, hfailed⟩ | hagree)
    · exact nomatch hready.stage_eq.symm.trans hfailed
    · exact answer_withNaming hagree fs file
  | @failed status hstage hopen =>
    by_cases hasks : op.asksHeader ∧ c.hasHeader = true
    · obtain ⟨hasks, hheader⟩ := hasks
      obtain ⟨file, hfile⟩ := Option.isSome_iff_exists.mp (hopen hheader)
      have hrun := perform_headed hstage hheader hfile hasks fs
      have hrun' : Runs (op.perform fs) (c.withNaming naming) _ (c.withNaming naming) :=
        perform_headed (c := c.withNaming naming) hstage hheader hfile hasks fs
      refine ⟨_, _, hrun, hrun', fun _ => answer_withNaming (fun name hname => ?_) fs file⟩
      rw [Operation.section?_of_asksHeader hasks] at hname
      cases hname
    · have hnone : op.asksHeader → c.hasHeader ≠ true := fun hasks' hheader =>
        hasks ⟨hasks', hheader⟩
      have hrun := perform_failed hstage hop hnone fs
      have hrun' : Runs (op.perform fs) (c.withNaming naming) _ (c.withNaming naming) :=
        perform_failed (c := c.withNaming naming) hstage hop hnone fs
      exact ⟨_, _, hrun, hrun', fun _ => rfl⟩

/-- A session and one whose container is the same but for its conventions go on side by side. -/
theorem runAll_withNaming {s s' : Session} (h : Settled s.container)
    (hs : s'.container = s.container.withNaming naming) (steps : List (FileSystem × Operation))
    (hreading : ∀ step ∈ steps, step.2.isReading) :
    (s.runAll steps).container = s.container ∧ (s'.runAll steps).container = s'.container ∧
      ((∀ step ∈ steps, Unaffected s.container naming step.2) →
        s'.outcomes steps = s.outcomes steps) := by
  induction steps generalizing s s' with
  | nil => exact ⟨rfl, rfl, fun _ => rfl⟩
  | cons step rest ih =>
    obtain ⟨fs, op⟩ := step
    obtain ⟨outcome, renamed, hrun, hrun', hsame⟩ :=
      perform_withNaming h (hreading (fs, op) List.mem_cons_self) fs naming
    rw [← hs] at hrun'
    have hnext : (s.run fs op).2.container = s.container := hrun.container_eq
    have hnext' : (s'.run fs op).2.container = s'.container := hrun'.container_eq
    have hsettled : Settled (s.run fs op).2.container := by
      rw [hnext]
      exact h
    have hrenamed : (s'.run fs op).2.container = (s.run fs op).2.container.withNaming naming := by
      rw [hnext, hnext', hs]
    obtain ⟨hkept, hkept', houtcomes⟩ := ih hsettled hrenamed fun other hother =>
      hreading other (List.mem_cons_of_mem _ hother)
    refine ⟨hkept.trans hnext, hkept'.trans hnext', fun hall => ?_⟩
    have hfirst : (s'.run fs op).1 = (s.run fs op).1 :=
      hrun'.outcome_eq.trans ((hsame (hall (fs, op) List.mem_cons_self)).trans
        hrun.outcome_eq.symm)
    have hrest := houtcomes fun other hother => by
      rw [hnext]
      exact hall other (List.mem_cons_of_mem _ hother)
    rw [Session.outcomes, Session.outcomes, hfirst, hrest]

/-! ## Loading under other conventions -/

@[simp] theorem withNaming_path : (c.withNaming naming).path = c.path := rfl

@[simp] theorem withNaming_offset : (c.withNaming naming).offset = c.offset := rfl

@[simp] theorem withNaming_file : (c.withNaming naming).file = c.file := rfl

@[simp] theorem withNaming_overrides : (c.withNaming naming).overrides = c.overrides := rfl

/-- The same result with other conventions in the container. -/
def Result.withNaming (r : Result) (naming : Naming) : Result := (r.1, r.2.withNaming naming)

theorem extendedResult_withNaming (fs : FileSystem) (file : Handle) (header : ContainerHeader)
    (c : Container) (naming : Naming) :
    extendedResult fs file header (c.withNaming naming) =
      Result.withNaming (extendedResult fs file header c) naming := by
  unfold extendedResult
  rw [withNaming_offset]
  cases extendedAt fs file (c.offset + UInt64.ofNat ContainerHeader.byteSize) with
  | error e => rfl
  | ok extended =>
    dsimp only
    by_cases hid : (extended.programId != header.programId) = true
    · rw [if_pos hid, if_pos hid]
      rfl
    · rw [if_neg hid, if_neg hid]
      rfl

theorem embeddedResult_withNaming (fs : FileSystem) (file : Handle) (header : ContainerHeader)
    (c : Container) (naming : Naming) :
    embeddedResult fs file header (c.withNaming naming) =
      Result.withNaming (embeddedResult fs file header c) naming := by
  unfold embeddedResult
  rw [withNaming_offset]
  by_cases hexefs : header.hasExefs = true
  · rw [if_pos hexefs, if_pos hexefs]
    dsimp only
    cases tableAt fs file (c.offset + header.exefs.byteOffset) header.exefs.byteSize with
    | error e => rfl
    | ok table => rfl
  · rw [if_neg hexefs, if_neg hexefs]
    rfl

theorem tableResult_withNaming (fs : FileSystem) (file : Handle) (header : ContainerHeader)
    (c : Container) (naming : Naming) :
    tableResult fs file header (c.withNaming naming) =
      Result.withNaming (tableResult fs file header c) naming := by
  unfold tableResult
  rw [withNaming_overrides]
  cases c.overrides.exefs.path?.bind (imageStore? fs) with
  | some store => rfl
  | none =>
    exact embeddedResult_withNaming fs file header
      { c with overrides := { c.overrides with exefs := .embedded } } naming

theorem sectionsResult_withNaming (fs : FileSystem) (file : Handle) (header : ContainerHeader)
    (c : Container) (naming : Naming) :
    sectionsResult fs file header (c.withNaming naming) =
      Result.withNaming (sectionsResult fs file header c) naming := by
  unfold sectionsResult
  rw [extendedResult_withNaming, tableResult_withNaming]
  by_cases hextended : header.hasExtended = true
  · rw [if_pos hextended, if_pos hextended]
    cases extendedResult fs file header c with
    | mk outcome next =>
      cases outcome with
      | error e => rfl
      | ok _ => exact tableResult_withNaming fs file header next naming
  · rw [if_neg hextended, if_neg hextended]

theorem openResult_withNaming (fs : FileSystem) (c : Container) (naming : Naming) :
    openResult fs (c.withNaming naming) =
      ((openResult fs c).1, (openResult fs c).2.withNaming naming) := by
  unfold openResult
  rw [withNaming_file, withNaming_path]
  cases c.file with
  | some file => rfl
  | none =>
    cases fs.openPath c.path with
    | error e => rfl
    | ok file => rfl

theorem validated_withNaming
    (h : OverrideSet.resolve fs c.path naming = .resolve fs c.path c.naming)
    (header : ContainerHeader) :
    (c.withNaming naming).validated fs header = (c.validated fs header).withNaming naming := by
  rw [validated, validated, ← h]
  rfl

/-- Conventions that find the same override files load the same. -/
theorem loadResult_withNaming
    (h : OverrideSet.resolve fs c.path naming = .resolve fs c.path c.naming) :
    loadResult fs (c.withNaming naming) = Result.withNaming (loadResult fs c) naming := by
  have hsteps : stepsResult fs (c.withNaming naming) =
      Result.withNaming (stepsResult fs c) naming := by
    unfold stepsResult
    rw [openResult_withNaming]
    rcases openResult_eq fs c with ⟨e, hopen⟩ | ⟨file, stage, hopen⟩
    · rw [hopen]
      rfl
    · rw [hopen]
      dsimp only
      rw [withNaming_offset]
      cases headerAt fs file c.offset with
      | error e => rfl
      | ok header =>
        dsimp only
        rw [validated_withNaming (c := { c with file := some file, stage := stage }) h]
        exact sectionsResult_withNaming fs file header _ naming
  unfold loadResult
  rw [hsteps]
  rfl

/-- A container is loaded as under other conventions that find the same override files. -/
theorem loading_withNaming
    (h : OverrideSet.resolve fs path renamed = .resolve fs path naming) :
    (Session.loading fs path offset renamed).container =
      (Session.loading fs path offset naming).container.withNaming renamed := by
  have hfirst : ∀ used, (Session.loading fs path offset used).container =
      (loadResult fs ((new path offset).withNaming used)).2 := fun used =>
    (perform_load_runs (.inl rfl) : Runs (Operation.load.perform fs)
      (Session.begin path offset used).container _ _).container_eq
  have hresult := loadResult_withNaming (c := (new path offset).withNaming naming) h
  rw [hfirst, hfirst]
  exact congrArg Prod.snd hresult

/-! ## Other conventions from now on -/

/-- Once the loading of a container has come to its end, reading from it leaves it as it is, and
other conventions change nothing of it but themselves. They change an answer only if it is about a
section that just one of the two conventions has a file name for; and if there is such a section and
the container is loaded, they do change one. -/
theorem outcomes_withNaming_iff (path : Path) (offset : UInt64) (naming renamed : Naming)
    (history : List (FileSystem × Operation)) (now : FileSystem)
    (h : ((Session.begin path offset naming).runAll history).container.stage.isSettled) :
    let s := (Session.begin path offset naming).runAll history
    let s' := (s.run now (.useNaming renamed)).2
    (∀ steps : List (FileSystem × Operation), (∀ step ∈ steps, step.2.isReading) →
      (s.runAll steps).container = s.container ∧
      (s'.runAll steps).container = s.container.withNaming renamed ∧
      ((∀ step ∈ steps, Unaffected s.container renamed step.2) →
        s'.outcomes steps = s.outcomes steps)) ∧
    ((∀ steps : List (FileSystem × Operation), (∀ step ∈ steps, step.2.isReading) →
      s'.outcomes steps = s.outcomes steps) ↔
      (∃ status, s.container.stage = .failed status) ∨
        ∀ name, s.container.naming.AgreeOn renamed name) := by
  intro s s'
  have hsettled : Settled s.container := (wellFormed_runAll path offset naming history).settled h
  have hs : s'.container = s.container.withNaming renamed := rfl
  refine ⟨fun steps hreading => runAll_withNaming hsettled hs steps hreading, ?_, ?_⟩
  · intro hsame
    cases hsettled with
    | failed hfailed _ => exact Or.inl ⟨_, hfailed⟩
    | @loaded file hready =>
      refine Or.inr fun name => Decidable.byContradiction fun hdiffer => ?_
      -- the override of the section that they differ on tells the two apart on any files
      have hone : [(s'.run now (.readOverrideSection name)).1] =
          [(s.run now (.readOverrideSection name)).1] :=
        hsame [(now, .readOverrideSection name)] fun step hstep => by
          rw [List.mem_singleton.mp hstep]
          rfl
      have hready' : Ready s'.container file := hready.withNaming renamed
      rw [hready.outcome_run, hready'.outcome_run] at hone
      exact answer_withNaming_ne hdiffer (List.cons.inj hone).1
  · intro hcondition steps hreading
    obtain ⟨-, -, houtcomes⟩ := runAll_withNaming hsettled hs steps hreading
    exact houtcomes fun step _ => hcondition.imp_right fun hagree name _ => hagree name

/-- Conventions with the standard sections, and with other file names and suffixes for all. -/
def elsewhere : Naming where
  directorySuffix := ".sections"
  imageSuffix := ".image"
  romfsSuffix := ".files"
  files := Naming.standard.files.map fun entry => ⟨entry.name, entry.name ++ ".other"⟩

/-- An image stays in use, though no override file has its name any more. -/
theorem outcomes_withNaming_image :
    (Session.loading withImage ⟨"game.cxi"⟩ 0 .standard).container.stage.isSettled ∧
      ∀ steps : List (FileSystem × Operation), (∀ step ∈ steps, step.2.isReading) →
        ((Session.loading withImage ⟨"game.cxi"⟩ 0 .standard).run withImage
          (.useNaming elsewhere)).2.outcomes steps =
            (Session.loading withImage ⟨"game.cxi"⟩ 0 .standard).outcomes steps := by
  have hloaded : (Session.loading withImage ⟨"game.cxi"⟩ 0 .standard).container.stage = .loaded :=
    loading_of_requirements (by decide +kernel)
  have hsettled :
      (Session.loading withImage ⟨"game.cxi"⟩ 0 .standard).container.stage.isSettled := by
    rw [hloaded]
    rfl
  obtain ⟨file, header, hcontainer, -⟩ := load_of_stage hloaded
  obtain ⟨-, hiff⟩ := outcomes_withNaming_iff ⟨"game.cxi"⟩ 0 .standard elsewhere
    [(withImage, .load)] withImage (by rw [Session.runAll_load]; exact hsettled)
  rw [Session.runAll_load] at hiff
  refine ⟨hsettled, hiff.mpr (Or.inr ?_)⟩
  rw [hcontainer.naming_eq]
  exact Naming.agreeOn_of_names rfl

/-- A container with nothing after its header, and no override files. -/
def headerOnly : FileSystem where
  contents := #[(List.replicate 0x100 0 ++ containerMagic ++ List.replicate 0xfc 0).toArray]
  entries := [(["game.cxi"], .file 0)]
  workingDirectory := []

/-- Conventions without a file name for any section. -/
def withoutSections : Naming := { Naming.standard with files := [] }

/-- A section that could be overridden, but is not, cannot be any more once the conventions have
changed. The container is then the one that these conventions would have loaded. -/
theorem unnamed_after_load :
    (Session.loading headerOnly ⟨"game.cxi"⟩ 0 .standard).container.stage = .loaded ∧
    (∀ now, ((Session.loading headerOnly ⟨"game.cxi"⟩ 0 .standard).run now
      (.readOverrideSection "icon")).1 = .error (.notUsed "override for section 'icon'")) ∧
    (∀ now, (((Session.loading headerOnly ⟨"game.cxi"⟩ 0 .standard).run headerOnly
      (.useNaming withoutSections)).2.run now (.readOverrideSection "icon")).1 =
        .error (.notFound "icon")) ∧
    ((Session.loading headerOnly ⟨"game.cxi"⟩ 0 .standard).run headerOnly
      (.useNaming withoutSections)).2.container =
        (Session.loading headerOnly ⟨"game.cxi"⟩ 0 withoutSections).container := by
  have hloaded : (Session.loading headerOnly ⟨"game.cxi"⟩ 0 .standard).container.stage = .loaded :=
    loading_of_requirements (by decide +kernel)
  obtain ⟨file, header, hcontainer, -⟩ := load_of_stage hloaded
  have hready : Ready (Session.loading headerOnly ⟨"game.cxi"⟩ 0 .standard).container file :=
    hcontainer.ready
  have hready' : Ready ((Session.loading headerOnly ⟨"game.cxi"⟩ 0 .standard).run headerOnly
      (.useNaming withoutSections)).2.container file := hready.withNaming withoutSections
  have hnone : (Session.loading headerOnly ⟨"game.cxi"⟩ 0 .standard).container.overrides.section?
      "icon" = .embedded := by
    rw [hcontainer.recorded, hcontainer.path_eq, hcontainer.naming_eq]
    decide +kernel
  refine ⟨hloaded, fun now => ?_, fun now => ?_, ?_⟩
  · have hname : Naming.standard.fileName? "icon" ≠ none := by decide
    rw [hready.outcome_run, answer, overrideAnswer, hcontainer.naming_eq, if_neg hname, hnone]
    rfl
  · rw [hready'.outcome_run]
    exact answer_eq_notFound_iff.mpr rfl
  · exact (loading_withNaming (by decide +kernel)).symm

end Container
end Cartridge
