import Cartridge.Proofs.Command.Program
import Cartridge.Proofs.Container.AfterLoad

/-!
# Where an extraction writes

An extraction stores a file for each section in use, and one for the RomFS. The names of the
sections come from the container: a name with a slash in it may lead out of the output directory,
any other stays in it.
-/
namespace Cartridge.Command

open Container Procedure

/-- The directory that a request extracts to. -/
def Request.output (request : Request) : Path := (request.path? .output).getD ⟨""⟩

/-- The path that a section is extracted to. -/
def sectionTarget (naming : Naming) (output : Path) (name : String) : Path :=
  (output.join "exefs").join (extractedName naming name)

/-- The paths that the sections in use are extracted to, in the order of their slots. -/
def sectionTargets (fs : FileSystem) (request : Request) (naming : Naming) : List Path :=
  (sectionNames fs request.input request.offset naming).map
    (sectionTarget naming request.output)

def romfsTarget (output : Path) : Path := output.join "romfs.bin"

variable {fs : FileSystem} {request : Request} {naming : Naming} {output : Path} {name : String}
  {w after : World}

/-! ## What an extraction stores -/

theorem loaded_eq (request : Request) (naming : Naming) :
    loaded request naming = do
      let answer ← onContainer
        ⟨(Session.begin request.input request.offset naming).container, []⟩ load
      return answer.2 := rfl

/-- A container that can be loaded is the one that its first load leaves. -/
theorem run_loaded
    (hstage : (Session.loading w.fileSystem request.input request.offset naming).container.stage =
      .loaded) :
    ∃ session, (loaded request naming).run.run w = (.ok session, w) ∧ session.container =
      (Session.loading w.fileSystem request.input request.offset naming).container := by
  obtain ⟨_, _, -, hload⟩ := load_of_stage hstage
  obtain ⟨log, hrun⟩ := hload []
  exact ⟨_, run_bind_of_ok (run_onContainer_of_ok hrun), rfl⟩

theorem container_of_loaded {session : Session}
    (h : (loaded request naming).run.run w = (.ok session, after)) :
    after = w ∧
      (Session.loading w.fileSystem request.input request.offset naming).container.stage = .loaded ∧
      session.container =
        (Session.loading w.fileSystem request.input request.offset naming).container := by
  by_cases hstage :
      (Session.loading w.fileSystem request.input request.offset naming).container.stage = .loaded
  · obtain ⟨session', hrun, hcontainer⟩ := run_loaded hstage
    rw [hrun] at h
    cases h
    exact ⟨rfl, hstage, hcontainer⟩
  · obtain ⟨e, next, hload⟩ := load_of_stage_ne hstage
    obtain ⟨log, hrun⟩ := hload []
    rw [loaded_eq, run_bind_of_error (run_onContainer_of_error hrun)] at h
    cases h

theorem stores_loaded (request : Request) (naming : Naming) (w : World) :
    Stores [] [] (loaded request naming) w :=
  .nil_bind (.of_onContainer _ _) fun _ _ _ => .of_pure _

theorem stores_makeDirectories {wrap : StorageFault → Failure} (p : Path) (w : World) :
    Stores [] [] (onFiles wrap fun fs => fs.makeDirectories p) w :=
  .of_onFiles fun _ => FileSystem.stores_makeDirectories

theorem stores_extractSection (session : Session) (naming : Naming) (output : Path) (name : String)
    (w : World) :
    Stores [sectionTarget naming output name] [sectionTarget naming output name]
      (extractSection session naming output name) w := by
  refine Stores.nil_bind (.of_onContainer _ _) fun _ _ _ => ?_
  refine Stores.nil_bind (stores_makeDirectories _ _) fun _ _ _ => ?_
  exact .of_onFiles fun _ => FileSystem.stores_store

/-- The file of a RomFS is there as soon as it is made, though copying into it may still fail. -/
theorem stores_extractRange (range : FileRange) (p : Path) (w : World) :
    Stores [p] [p] (extractRange range p) w := by
  unfold extractRange
  refine Stores.get_bind ?_
  cases hcreate : w.fileSystem.create p with
  | error fault =>
    exact .of_error rfl rfl
  | ok made =>
    obtain ⟨number, created⟩ := made
    obtain ⟨hstores, hfile⟩ := FileSystem.stores_create hcreate
    refine Stores.nil_bind (.of_pure _) fun _ _ hpure => ?_
    cases hpure
    refine Stores.bind_nil (.of_modify ?_) fun _ _ _ => ?_
    · exact hstores.setBytes (List.mem_singleton_self p) hfile _
    · exact .nil_bind (.of_orFail _ _) fun _ _ _ => .of_pure _

theorem stores_extract (request : Request) (naming : Naming) (w : World) :
    Stores (sectionTargets w.fileSystem request naming)
      (sectionTargets w.fileSystem request naming ++ [romfsTarget request.output])
      (extract request naming) w := by
  refine Stores.nil_bind (stores_loaded request naming w) fun session _ hsession => ?_
  obtain ⟨rfl, hstage, hcontainer⟩ := container_of_loaded hsession
  obtain ⟨file, header, hfirst, -⟩ := load_of_stage hstage
  rw [← hcontainer] at hfirst
  unfold sectionTargets
  rw [← hfirst.sectionNames_eq, List.map_map]
  refine Stores.nil_bind (stores_makeDirectories _ _) fun _ _ _ => ?_
  refine Stores.bind_optional (.forM _ (fun slot _ w => ?_) _) fun _ _ _ => Stores.get_bind ?_
  · exact stores_extractSection session naming request.output slot.name.text w
  · -- A run also succeeds when there is no RomFS to store, so that its file is not needed.
    split
    · exact (stores_extractRange _ _ _).mono List.nil_prefix (List.prefix_refl _)
    · split
      · exact (Stores.of_pure _).mono List.nil_prefix List.nil_prefix
      · exact .of_error rfl rfl

/-! ## In the output directory -/

/-- The places of the files that belong in an output directory. -/
def InOutput (fs : FileSystem) (output : Path) (place : List String) : Prop :=
  (∃ name, place = fs.placeOf output ++ ["exefs", name]) ∨
    place = fs.placeOf output ++ ["romfs.bin"]

/-- Every file that is new or changed is in the output directory. -/
structure Stays (fs : FileSystem) (output : Path) (now : FileSystem) : Prop where
  created : ∀ place number, now.handleAt? place = some (.file number) →
    fs.handleAt? place = some (.file number) ∨ InOutput fs output place
  changed : ∀ number, now.bytesOf number ≠ fs.bytesOf number →
    ∃ place, InOutput fs output place ∧ now.handleAt? place = some (.file number)

section

variable {now : FileSystem} {written : List Path}

theorem stays_of_stores (h : fs.Stores written now)
    (hin : ∀ p ∈ written, InOutput fs output (fs.placeOf p)) : Stays fs output now where
  created := by
    intro place number hfile
    rcases h.created place number hfile with hbefore | ⟨p, hp, rfl⟩
    · exact .inl hbefore
    · exact .inr (hin p hp)
  changed := by
    intro number hchanged
    obtain ⟨p, hp, hfile⟩ := h.changed number hchanged
    exact ⟨_, hin p hp, hfile⟩

/-- A file that is stored where none was is new, so that it counts. -/
theorem inOutput_of_stays (h : fs.Stores written now) (hstays : Stays fs output now)
    {p : Path} (hp : p ∈ written) (hnew : fs.handleAt? (fs.placeOf p) = none) :
    InOutput fs output (fs.placeOf p) := by
  obtain ⟨number, hfile⟩ := h.stored p hp
  rcases hstays.created _ number hfile with hbefore | hin
  · rw [hnew] at hbefore
    cases hbefore
  · exact hin

end

/-- The file name of a section is a plain one if the name of the section is. -/
theorem extractedName_plain (h : '/' ∉ name.toList) :
    '/' ∉ (extractedName .standard name).toList ∧
      extractedName .standard name ∉ ["", ".", ".."] := by
  unfold extractedName
  cases hfile : Naming.standard.fileName? name with
  | some fileName =>
    have hknown : fileName ∈ Naming.standard.files.map SectionFile.fileName := by
      obtain ⟨entry, hentry, rfl⟩ := Option.map_eq_some_iff.mp hfile
      exact List.mem_map_of_mem (List.mem_of_find?_eq_some hentry)
    have hplain : ∀ fileName ∈ Naming.standard.files.map SectionFile.fileName,
        '/' ∉ fileName.toList ∧ fileName ∉ ["", ".", ".."] := by decide
    exact hplain fileName hknown
  | none =>
    rw [Option.getD_none]
    constructor
    · rw [String.toList_append, List.mem_append, not_or]
      exact ⟨h, by decide⟩
    · intro hmem
      have hshort : ∀ s ∈ ["", ".", ".."], s.length < 4 := by decide
      have hlength := hshort _ hmem
      have hsuffix : ".bin".length = 4 := rfl
      rw [String.length_append] at hlength
      omega

theorem placeOf_sectionTarget (fs : FileSystem) (output : Path) (h : '/' ∉ name.toList) :
    fs.placeOf (sectionTarget .standard output name) =
      fs.placeOf output ++ ["exefs", extractedName .standard name] := by
  obtain ⟨hslash, hname⟩ := extractedName_plain h
  rw [sectionTarget, fs.placeOf_join _ hslash hname, fs.placeOf_join output (by decide) (by decide),
    List.append_assoc]
  rfl

theorem placeOf_romfsTarget (fs : FileSystem) (output : Path) :
    fs.placeOf (romfsTarget output) = fs.placeOf output ++ ["romfs.bin"] :=
  fs.placeOf_join output (by decide) (by decide)

/-- A section whose name has no slash is extracted into the output directory. -/
theorem inOutput_sectionTarget (fs : FileSystem) (output : Path) (h : '/' ∉ name.toList) :
    InOutput fs output (fs.placeOf (sectionTarget .standard output name)) :=
  .inl ⟨extractedName .standard name, placeOf_sectionTarget fs output h⟩

theorem inOutput_romfsTarget (fs : FileSystem) (output : Path) :
    InOutput fs output (fs.placeOf (romfsTarget output)) :=
  .inr (placeOf_romfsTarget fs output)

/-! ## A run that extracts -/

section

variable (hverb : request.verb = .extract) (hnaming : request.path? .naming = none)
include hverb hnaming

theorem perform_extract : perform request = extract request .standard := by
  have hstandard : requestedNaming request = pure .standard := by
    rw [requestedNaming, hnaming]
  rw [perform, hstandard, hverb]
  rfl

theorem run_extract {arguments : List String} (h : readArguments arguments = .ok request)
    (fs : FileSystem) :
    (run fs arguments).world = ((extract request .standard).run.run ⟨fs, #[]⟩).2 ∧
      ((run fs arguments).exitCode = 0 ↔
        ((extract request .standard).run.run ⟨fs, #[]⟩).1 = .ok ()) := by
  have hperform := perform_extract hverb hnaming
  unfold run
  rw [h]
  dsimp only
  rw [hperform]
  cases (extract request .standard).run.run ⟨fs, #[]⟩ with
  | mk outcome world =>
    cases outcome with
    | ok _ => simp
    | error failure => simp

/-- A run stores the files of the sections in their order and then that of the RomFS, up to where it
fails. If it succeeds, the file of every section is among them. -/
theorem stores_run {arguments : List String} (h : readArguments arguments = .ok request)
    (fs : FileSystem) :
    ∃ written, written <+: sectionTargets fs request .standard ++ [romfsTarget request.output] ∧
      ((run fs arguments).exitCode = 0 → sectionTargets fs request .standard <+: written) ∧
      fs.Stores written (run fs arguments).world.fileSystem := by
  obtain ⟨hworld, hcode⟩ := run_extract hverb hnaming h fs
  obtain ⟨written, hplanned, hneeded, hstores⟩ := stores_extract request .standard ⟨fs, #[]⟩
  rw [hworld]
  exact ⟨written, hplanned, fun hzero => hneeded () (hcode.mp hzero), hstores⟩

end

/-! ## Runs that succeed -/

theorem run_extractSection {session : Session} {file : Handle} {bytes : Bytes}
    {inner now : FileSystem} (hready : Ready session.container file)
    (hread : sectionAnswer w.fileSystem session.container file name = .ok bytes)
    (hinner : w.fileSystem.makeDirectories (output.join "exefs") = .ok inner)
    (hnow : inner.store (sectionTarget naming output name) bytes = .ok now) :
    (extractSection session naming output name).run.run w =
      (.ok (), { w with fileSystem := now }) := by
  obtain ⟨log, hanswer⟩ := readSection_ready hready w.fileSystem name session.log
  rw [hread] at hanswer
  unfold extractSection
  rw [run_bind_of_ok (run_onContainer_of_ok hanswer)]
  dsimp only
  rw [run_bind_of_ok (run_onFiles_of_ok hinner)]
  exact run_onFiles_of_ok hnow

/-- An extraction succeeds exactly if the container is loaded, all sections are extracted and so is
the RomFS, or there is none. -/
theorem run_extract_eq_ok : (extract request naming).run.run w = (.ok (), after) ↔
    ∃ session made middle, (loaded request naming).run.run w = (.ok session, w) ∧
      w.fileSystem.makeDirectories request.output = .ok made ∧
      (((session.container.table?.map SectionTable.used).getD []).forM fun slot =>
        extractSection session naming request.output slot.name.text).run.run
          { w with fileSystem := made } = (.ok (), middle) ∧
      match ((locateRomfs middle.fileSystem).perform session).1 with
      | .ok range =>
        (extractRange range (romfsTarget request.output)).run.run middle = (.ok (), after)
      | .error e => e.status = .notUsed ∧ after = middle := by
  constructor
  · intro h
    obtain ⟨session, _, hsession, hrest⟩ := run_bind_eq_ok.mp h
    obtain ⟨rfl, -, -⟩ := container_of_loaded hsession
    obtain ⟨_, _, hdirectory, hrest⟩ := run_bind_eq_ok.mp hrest
    obtain ⟨made, hmade, rfl⟩ := run_onFiles_eq_ok.mp hdirectory
    obtain ⟨_, middle, hsections, hlast⟩ := run_bind_eq_ok.mp hrest
    rw [run_get_bind] at hlast
    refine ⟨session, made, middle, hsession, hmade, hsections, ?_⟩
    cases hlocate : (locateRomfs middle.fileSystem).perform session with
    | mk outcome next =>
      rw [hlocate] at hlast
      cases outcome with
      | ok range => exact hlast
      | error e =>
        dsimp only at hlast
        by_cases he : e.status = .notUsed
        · rw [if_pos he] at hlast
          cases hlast
          exact ⟨he, rfl⟩
        · rw [if_neg he] at hlast
          cases hlast
  · rintro ⟨session, made, middle, hsession, hmade, hsections, hlast⟩
    unfold extract
    rw [run_bind_of_ok hsession]
    dsimp only
    rw [run_bind_of_ok (run_onFiles_of_ok hmade)]
    refine (run_bind_of_ok hsections).trans ?_
    rw [run_get_bind]
    cases hlocate : (locateRomfs middle.fileSystem).perform session with
    | mk outcome next =>
      rw [hlocate] at hlast
      cases outcome with
      | ok range => exact hlast
      | error e =>
        obtain ⟨he, rfl⟩ := hlast
        dsimp only
        rw [if_pos he]
        rfl

/-- An extraction of a container with one section and no RomFS succeeds if the section can be read
and its file be made. -/
theorem extract_of_single {file : Handle} {bytes : Bytes} {made inner now : FileSystem}
    (hstage : (Session.loading fs request.input request.offset naming).container.stage = .loaded)
    (hnames : sectionNames fs request.input request.offset naming = [name])
    (hopen : fs.openPath request.input = .ok file) (hfs : fs.Addressable)
    (hname : naming.fileName? name = none) (hlogo : name ≠ logoSection)
    (hread : storedOutcome fs (request.input.withSuffix naming.imageSuffix) file
      request.offset.toNat name = .ok bytes)
    (hmade : fs.makeDirectories request.output = .ok made)
    (hinner : made.makeDirectories (request.output.join "exefs") = .ok inner)
    (hnow : inner.store (sectionTarget naming request.output name) bytes = .ok now)
    (hoverride : fs.isFile (request.input.withSuffix naming.romfsSuffix) = false)
    (hromfs : wordAt (fs.bytesBehind file) (request.offset.toNat + 0x1b4) 4 = 0) (out : Bytes) :
    (extract request naming).run.run ⟨fs, out⟩ = (.ok (), ⟨now, out⟩) := by
  have hloaded : ∃ session, (loaded request naming).run.run ⟨fs, out⟩ = (.ok session, ⟨fs, out⟩) ∧
      session.container = (Session.loading fs request.input request.offset naming).container :=
    run_loaded hstage
  obtain ⟨session, hrun, hcontainer⟩ := hloaded
  obtain ⟨found, header, hfirst, -⟩ := load_of_stage hstage
  cases hopen.symm.trans hfirst.file_at
  rw [← hcontainer] at hfirst
  have hsame := (FileSystem.stores_makeDirectories hmade).bytesOf_eq
  have hanswer := hfirst.sectionAnswer_of_unnamed hfs hsame hname hlogo
  rw [hread] at hanswer
  have hslots := hfirst.sectionNames_eq
  rw [hnames] at hslots
  obtain ⟨slot, hslot, hshown⟩ := List.map_eq_singleton_iff.mp hslots
  have hsection : (extractSection session naming request.output slot.name.text).run.run
      ⟨made, out⟩ = (.ok (), ⟨now, out⟩) := by
    rw [hshown]
    exact run_extractSection hfirst.ready hanswer hinner hnow
  have hlocate := (locateRomfs_ready hfirst.ready now).outcome_eq
  rw [hfirst.romfsAnswer_of_absent hoverride hromfs] at hlocate
  refine run_extract_eq_ok.mpr ⟨session, made, ⟨now, out⟩, hrun, hmade, ?_, ?_⟩
  · rw [hslot]
    exact run_bind_of_ok hsection
  · rw [hlocate]
    exact ⟨rfl, rfl⟩

/-- A container with one section of this name. -/
def oneSection (name : String) : FileSystem where
  contents := #[(containerOf (exefsOf (utf8 name) (utf8 "DATA"))).toArray]
  entries := [(["game.cxi"], .file 0)]
  workingDirectory := []

def extractGame : Request := ⟨.extract, [(.input, "game.cxi"), (.output, "out/sub")]⟩

theorem readArguments_extractGame :
    readArguments ["extract", "-i", "game.cxi", "-o", "out/sub"] = .ok extractGame := rfl

theorem output_extractGame : extractGame.output = ⟨"out/sub"⟩ := rfl

/-- A plain name, and one that leads two directories up. -/
def twoNames : List String := ["data", "../../a"]

section

variable (h : name ∈ twoNames)
include h

theorem addressable_oneSection : (oneSection name).Addressable := by
  have hfirst : ∀ name ∈ twoNames, ((oneSection name).bytesOf 0).size < 2 ^ 63 := by decide +kernel
  intro number
  match number with
  | 0 => exact hfirst name h
  | n + 1 => simp [FileSystem.bytesOf, oneSection]

theorem sectionNames_oneSection :
    sectionNames (oneSection name) extractGame.input extractGame.offset .standard = [name] := by
  have hnames : ∀ name ∈ twoNames, sectionNames (oneSection name) extractGame.input
      extractGame.offset .standard = [name] := by decide +kernel
  exact hnames name h

theorem loaded_oneSection :
    (Session.loading (oneSection name) extractGame.input extractGame.offset
      .standard).container.stage = .loaded := by
  have hrequired : ∀ name ∈ twoNames, ∀ requirement ∈ requirements (oneSection name)
      extractGame.input extractGame.offset .standard, requirement.holds := by decide +kernel
  exact loading_of_requirements (hrequired name h)

theorem exitCode_oneSection :
    (run (oneSection name) ["extract", "-i", "game.cxi", "-o", "out/sub"]).exitCode = 0 := by
  have hopen : ∀ name ∈ twoNames,
      ((oneSection name).openPath extractGame.input).toOption = some (.file 0) := by decide +kernel
  have hread : ∀ name ∈ twoNames, (storedOutcome (oneSection name)
      (extractGame.input.withSuffix Naming.standard.imageSuffix) (.file 0)
      extractGame.offset.toNat name).toOption = some (utf8 "DATA").toArray := by decide +kernel
  have hmade : ∀ name ∈ twoNames, ((oneSection name).makeDirectories extractGame.output >>=
      fun made => made.makeDirectories (extractGame.output.join "exefs") >>=
      fun inner => inner.writeFile (sectionTarget .standard extractGame.output name)
        (utf8 "DATA").toArray).toOption.isSome := by decide +kernel
  have hplain : ∀ name ∈ twoNames, Naming.standard.fileName? name = none ∧ name ≠ logoSection ∧
      (oneSection name).isFile (extractGame.input.withSuffix Naming.standard.romfsSuffix) = false ∧
      wordAt ((oneSection name).bytesBehind (.file 0)) (extractGame.offset.toNat + 0x1b4) 4 =
        0 := by decide +kernel
  obtain ⟨hname, hlogo, hoverride, hromfs⟩ := hplain name h
  obtain ⟨now, hnow⟩ := Option.isSome_iff_exists.mp (hmade name h)
  obtain ⟨made, hmade, hrest⟩ := bind_eq_ok.mp (eq_ok_of_toOption hnow)
  obtain ⟨inner, hinner, hwrite⟩ := bind_eq_ok.mp hrest
  have hstore : inner.store (sectionTarget .standard extractGame.output name)
      (utf8 "DATA").toArray = .ok now := mapError_eq_ok.mpr hwrite
  have hrun := extract_of_single (loaded_oneSection h) (sectionNames_oneSection h)
    (eq_ok_of_toOption (hopen name h)) (addressable_oneSection h) hname hlogo
    (eq_ok_of_toOption (hread name h)) hmade hinner hstore hoverride hromfs #[]
  exact (run_extract rfl rfl readArguments_extractGame _).2.mpr (congrArg Prod.fst hrun)

end

/-! ## Where the files of an extraction are -/

/-- Whether it succeeds or fails, an extraction stores a first part of the files that its sections
and its RomFS lead to. It stays in its output directory if all of these are there, as they are if no
name has a slash in it; and, where no file was before, only then. -/
theorem stays_run_extract (fs : FileSystem) {arguments : List String} {request : Request}
    (h : readArguments arguments = .ok request) (hverb : request.verb = .extract)
    (hnaming : request.path? .naming = none) :
    let answer := run fs arguments
    let now := answer.world.fileSystem
    let targets := sectionTargets fs request .standard
    (∃ written, written <+: targets ++ [romfsTarget request.output] ∧
      (answer.exitCode = 0 → targets <+: written) ∧ fs.Stores written now ∧
      ((∀ p ∈ written, InOutput fs request.output (fs.placeOf p)) →
        Stays fs request.output now) ∧
      ((∀ p ∈ written, fs.handleAt? (fs.placeOf p) = none) → Stays fs request.output now →
        ∀ p ∈ written, InOutput fs request.output (fs.placeOf p))) ∧
    ((∀ name ∈ sectionNames fs request.input request.offset .standard, '/' ∉ name.toList) →
      Stays fs request.output now) := by
  intro answer now targets
  obtain ⟨written, hplanned, hneeded, hstores⟩ := stores_run hverb hnaming h fs
  refine ⟨⟨written, hplanned, hneeded, hstores, stays_of_stores hstores, ?_⟩, ?_⟩
  · intro hfresh hstays p hp
    exact inOutput_of_stays hstores hstays hp (hfresh p hp)
  · intro hplain
    refine stays_of_stores hstores fun p hp => ?_
    rcases List.mem_append.mp (hplanned.mem hp) with hsection | hromfs
    · obtain ⟨name, hname, rfl⟩ := List.mem_map.mp hsection
      exact inOutput_sectionTarget fs request.output (hplain name hname)
    · rw [List.mem_singleton.mp hromfs]
      exact inOutput_romfsTarget fs request.output

/-- A section with a plain name, stored in its directory. -/
theorem stays_run_data :
    let answer := run (oneSection "data") ["extract", "-i", "game.cxi", "-o", "out/sub"]
    answer.exitCode = 0 ∧ Stays (oneSection "data") ⟨"out/sub"⟩ answer.world.fileSystem ∧
      ∃ number, answer.world.fileSystem.handleAt? ["out", "sub", "exefs", "data.bin"] =
        some (.file number) := by
  dsimp only
  have hknown : "data" ∈ twoNames := by decide
  have hcode := exitCode_oneSection hknown
  obtain ⟨⟨written, -, hneeded, hstores, -⟩, hstays⟩ :=
    stays_run_extract (oneSection "data") readArguments_extractGame rfl rfl
  rw [sectionNames_oneSection hknown] at hstays
  rw [sectionTargets, sectionNames_oneSection hknown] at hneeded
  have hfile := hstores.stored _ (List.IsPrefix.mem List.mem_cons_self (hneeded hcode))
  have hplace : (oneSection "data").placeOf (sectionTarget .standard extractGame.output "data") =
      ["out", "sub", "exefs", "data.bin"] := by decide +kernel
  rw [hplace] at hfile
  rw [output_extractGame] at hstays
  exact ⟨hcode, hstays (by decide), hfile⟩

/-- A section whose name leads up, stored outside of the output directory. -/
theorem leaves_run_above :
    let answer := run (oneSection "../../a") ["extract", "-i", "game.cxi", "-o", "out/sub"]
    answer.exitCode = 0 ∧ (oneSection "../../a").handleAt? ["out", "a.bin"] = none ∧
      (∃ number, answer.world.fileSystem.handleAt? ["out", "a.bin"] = some (.file number)) ∧
      ¬Stays (oneSection "../../a") ⟨"out/sub"⟩ answer.world.fileSystem := by
  dsimp only
  have hknown : "../../a" ∈ twoNames := by decide
  have hcode := exitCode_oneSection hknown
  obtain ⟨written, -, hneeded, hstores⟩ :=
    stores_run rfl rfl readArguments_extractGame (oneSection "../../a")
  rw [sectionTargets, sectionNames_oneSection hknown] at hneeded
  have hwritten := List.IsPrefix.mem List.mem_cons_self (hneeded hcode)
  have hplace : (oneSection "../../a").placeOf
      (sectionTarget .standard extractGame.output "../../a") = ["out", "a.bin"] := by decide +kernel
  have houtput : (oneSection "../../a").placeOf ⟨"out/sub"⟩ = ["out", "sub"] := by decide +kernel
  have hnew : (oneSection "../../a").handleAt? ["out", "a.bin"] = none := by decide +kernel
  have hfile := hstores.stored _ hwritten
  rw [hplace] at hfile
  refine ⟨hcode, hnew, hfile, fun hstays => ?_⟩
  have hin := inOutput_of_stays hstores hstays hwritten (by rw [hplace, hnew])
  rw [hplace, InOutput, houtput] at hin
  rcases hin with ⟨name, hin⟩ | hin
  · exact absurd (congrArg List.length hin) (by simp)
  · exact absurd hin (by decide)

end Cartridge.Command
