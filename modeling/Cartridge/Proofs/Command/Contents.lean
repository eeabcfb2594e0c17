import Cartridge.Proofs.Command.Extraction
import Cartridge.Proofs.Container.Relocation
import Cartridge.Proofs.Storage.Copying
import Cartridge.Proofs.Storage.Overwriting

/-!
# What an extraction writes

An extraction writes each section to its file and copies the RomFS. Sections whose names give the
same file are written over each other, and only the last of them is kept.
-/
namespace Cartridge

open Container Procedure

/-! ## Containers without override files -/

namespace Container

/-- A container that was loaded from this file, next to which no override files are. -/
structure Plain (fs : FileSystem) (path : Path) (offset : UInt64) (naming : Naming) (own : Nat)
    (header : ContainerHeader) (c : Container) : Prop
    extends FirstLoaded fs path offset naming (.file own) header c where
  alone : OverrideSet.resolve fs path naming = .empty

namespace Plain

variable {fs now : FileSystem} {path : Path} {offset : UInt64} {naming : Naming} {own : Nat}
  {header : ContainerHeader} {c : Container} (h : Plain fs path offset naming own header c)
include h

theorem noImage : Source.ofFile fs (path.withSuffix naming.imageSuffix) = .embedded :=
  congrArg OverrideSet.exefs h.alone

theorem isFile_image : fs.isFile (path.withSuffix naming.imageSuffix) = false := by
  simpa [Source.ofFile] using h.noImage

theorem isFile_romfs : fs.isFile (path.withSuffix naming.romfsSuffix) = false := by
  have hnone : (OverrideSet.resolve fs path naming).romfs = .embedded := by
    rw [h.alone]
    rfl
  simpa [OverrideSet.resolve, Source.ofFile] using hnone

theorem not_usable : ¬UsableImage fs (path.withSuffix naming.imageSuffix) := by
  apply not_usable_of_none
  rw [h.noImage]
  rfl

theorem overrides_eq : c.overrides = .empty := by
  have hsource := h.source_eq
  have hrecorded := h.recorded
  rw [h.path_eq, h.naming_eq] at hsource hrecorded
  rw [if_neg h.not_usable] at hsource
  rw [h.alone, hsource] at hrecorded
  exact hrecorded

/-- The ExeFS is in the file of the container. -/
theorem store_file {store : SectionStore} (hstore : c.store = some store) :
    store.file = .file own := by
  have hfound := storeFound h.store_read
  rw [hstore, h.path_eq, h.naming_eq] at hfound
  cases hfound with
  | image hrecorded =>
    rw [h.noImage] at hrecorded
    cases hrecorded
  | embedded => rfl

/-- The sections are read as before as long as the file of the container is as before. -/
theorem sectionAnswer_eq_of_own (hown : now.bytesOf own = fs.bytesOf own) (name : String) :
    sectionAnswer now c (.file own) name = sectionAnswer fs c (.file own) name := by
  have hsame : fs.SameBehind now (.file own) := by
    rintro _ ⟨⟩
    exact hown
  have hoverride : overrideAnswer now c name = overrideAnswer fs c name := by
    simp [overrideAnswer, h.overrides_eq, OverrideSet.empty, OverrideSet.section?, Source.path?]
  have hregion (region : Region) :
      regionAnswer now c (.file own) region = regionAnswer fs c (.file own) region :=
    readRegion_same hsame _ _ _
  have hstored : storedAnswer now c name = storedAnswer fs c name := by
    cases hstore : c.store? with
    | none => simp [storedAnswer, hstore]
    | some store =>
      simp [storedAnswer, hstore, h.store_file (store_of_store? hstore), readRegion_same hsame]
  simp only [sectionAnswer, hoverride, hregion, hstored]

/-- There is no RomFS but the one of the container. -/
theorem romfsAnswer_eq (now : FileSystem) :
    romfsAnswer now c (.file own) = embeddedRomfsAnswer c (.file own) := by
  have hnone : c.overrides.romfs = .embedded := by
    rw [h.overrides_eq]
    rfl
  rw [romfsAnswer, overrideRomfsAnswer, hnone]

end Plain

end Container

namespace Command

variable {fs : FileSystem} {request : Request} {naming : Naming} {output : Path} {name : String}
  {w after : World} {own : Nat} {header : ContainerHeader} {c : Container} {session : Session}
  {targets : List Path}

/-! ## The files of the sections -/

/-- The bytes that a section was read as, if it could be read. -/
def contentsOf (c : Container) (fs : FileSystem) (own : Nat) (name : String) : Bytes :=
  (sectionAnswer fs c (.file own) name).toOption.getD #[]

theorem contentsOf_of_ok {bytes : Bytes} (h : sectionAnswer fs c (.file own) name = .ok bytes) :
    contentsOf c fs own name = bytes := by
  rw [contentsOf, h]
  rfl

/-- The files that sections are extracted to, with what is written to them. -/
def sectionWrites (fs : FileSystem) (c : Container) (own : Nat) (naming : Naming) (output : Path)
    (names : List String) : List (Path × Bytes) :=
  names.map fun name => (sectionTarget naming output name, contentsOf c fs own name)

theorem run_extractSection_iff (hready : Ready session.container (.file own)) :
    (extractSection session naming output name).run.run w = (.ok (), after) ↔
      ∃ bytes made now, sectionAnswer w.fileSystem session.container (.file own) name = .ok bytes ∧
        w.fileSystem.makeDirectories (output.join "exefs") = .ok made ∧
        made.store (sectionTarget naming output name) bytes = .ok now ∧
        after = { w with fileSystem := now } := by
  constructor
  · intro h
    obtain ⟨⟨bytes, next⟩, middle, hread, hwrite⟩ := run_bind_eq_ok.mp h
    obtain ⟨hbytes, rfl⟩ := run_onContainer_eq_ok.mp hread
    obtain ⟨_, _, hdirectory, hstore⟩ := run_bind_eq_ok.mp hwrite
    obtain ⟨made, hmade, rfl⟩ := run_onFiles_eq_ok.mp hdirectory
    obtain ⟨now, hnow, rfl⟩ := run_onFiles_eq_ok.mp hstore
    have hanswer := (readSection_ready hready middle.fileSystem name).outcome_eq
    rw [hbytes] at hanswer
    exact ⟨bytes, made, now, hanswer.symm, hmade, hnow, rfl⟩
  · rintro ⟨bytes, made, now, hread, hmade, hnow, rfl⟩
    exact run_extractSection hready hread hmade hnow

/-- Sections are extracted one after the other exactly if all can be read and all files be written.
The container is not written to in between, so that each is read as it was at first. -/
theorem run_sections_iff (h : Plain fs request.input request.offset naming own header c)
    (hsession : session.container = c) (names : List String)
    (hin : ∀ name ∈ names, sectionTarget naming output name ∈ targets)
    (hsep : w.fileSystem.Separate own targets) (hown : w.fileSystem.bytesOf own = fs.bytesOf own) :
    (names.forM (extractSection session naming output)).run.run w = (.ok (), after) ↔
      (∀ name ∈ names, ∃ bytes, sectionAnswer fs c (.file own) name = .ok bytes) ∧
      ∃ now, FileSystem.writeEach (output.join "exefs") (sectionWrites fs c own naming output names)
        w.fileSystem = some now ∧ after = { w with fileSystem := now } := by
  induction names generalizing w with
  | nil =>
    constructor
    · rintro ⟨⟩
      exact ⟨nofun, _, rfl, rfl⟩
    · rintro ⟨-, now, ⟨⟩, rfl⟩
      rfl
  | cons name rest ih =>
    have hready : Ready session.container (.file own) := hsession ▸ h.ready
    have hanswer : sectionAnswer w.fileSystem session.container (.file own) name =
        sectionAnswer fs c (.file own) name := by
      rw [hsession]
      exact h.sectionAnswer_eq_of_own hown name
    have hnext {made now : FileSystem} {bytes : Bytes}
        (hmade : w.fileSystem.makeDirectories (output.join "exefs") = .ok made)
        (hnow : made.store (sectionTarget naming output name) bytes = .ok now) :
        now.Separate own targets ∧ now.bytesOf own = fs.bytesOf own := by
      have hdirectory := FileSystem.Wrote.of_makeDirectories hsep hmade
      have hwrote := FileSystem.Wrote.of_overwrites hdirectory.separate
        (hin name List.mem_cons_self) (FileSystem.overwrites_of_store hnow)
      exact ⟨hwrote.separate, hwrote.own_eq.trans (hdirectory.own_eq.trans hown)⟩
    have hlater : ∀ other ∈ rest, sectionTarget naming output other ∈ targets :=
      fun other hother => hin other (List.mem_cons_of_mem _ hother)
    refine Iff.trans run_bind_eq_ok ?_
    constructor
    · rintro ⟨_, middle, hfirst, hothers⟩
      obtain ⟨bytes, made, now, hread, hmade, hnow, rfl⟩ :=
        (run_extractSection_iff hready).mp hfirst
      obtain ⟨hsepNow, hownNow⟩ := hnext hmade hnow
      obtain ⟨hreads, last, hlast, rfl⟩ := (ih hlater hsepNow hownNow).mp hothers
      rw [hanswer] at hread
      refine ⟨List.forall_mem_cons.mpr ⟨⟨bytes, hread⟩, hreads⟩, last, ?_, rfl⟩
      refine FileSystem.writeEach_cons_eq_some.mpr ⟨made, now, hmade, ?_, hlast⟩
      rw [contentsOf_of_ok hread]
      exact hnow
    · rintro ⟨hreads, last, hall, rfl⟩
      obtain ⟨made, now, hmade, hnow, hlast⟩ := FileSystem.writeEach_cons_eq_some.mp hall
      obtain ⟨⟨bytes, hread⟩, hrests⟩ := List.forall_mem_cons.mp hreads
      obtain ⟨hsepNow, hownNow⟩ := hnext hmade hnow
      rw [contentsOf_of_ok hread] at hnow
      have hfirst := (run_extractSection_iff hready).mpr
        ⟨bytes, made, now, hanswer.trans hread, hmade, hnow, rfl⟩
      exact ⟨(), _, hfirst, (ih hlater hsepNow hownNow).mpr ⟨hrests, last, hlast, rfl⟩⟩

/-! ## The file of the RomFS -/

theorem run_extractRange_eq_ok {range : FileRange} {p : Path}
    (h : (extractRange range p).run.run w = (.ok (), after)) :
    ∃ number created count sink, w.fileSystem.create p = .ok (number, created) ∧
      range.copyTo created (Sink.ofLimit range.size.toNat) = (.ok count, sink) ∧
      after = { w with fileSystem := created.setBytes number sink.received } := by
  unfold extractRange at h
  rw [run_get_bind] at h
  cases hcreate : w.fileSystem.create p with
  | error fault =>
    rw [hcreate] at h
    cases h
  | ok answer =>
    obtain ⟨number, created⟩ := answer
    rw [hcreate] at h
    cases hcopy : range.copyTo created (Sink.ofLimit range.size.toNat) with
    | mk outcome sink =>
      obtain ⟨_, _, hpure, hrest⟩ := run_bind_eq_ok.mp h
      cases hpure
      dsimp only at hrest
      rw [hcopy] at hrest
      obtain ⟨_, _, hset, hlast⟩ := run_bind_eq_ok.mp hrest
      cases hset
      cases outcome with
      | error e => cases hlast
      | ok count =>
        cases hlast
        exact ⟨number, created, count, sink, rfl, hcopy, rfl⟩

theorem run_extractRange_of_fits {range : FileRange} {p : Path} {number : Nat}
    {created : FileSystem} (hfile : range.file = .file own)
    (hlow : range.offset.toNat + range.size.toNat < 2 ^ 63)
    (hfits : range.offset.toNat + range.size.toNat ≤ (created.bytesOf own).size)
    (hcreate : w.fileSystem.create p = .ok (number, created)) :
    (extractRange range p).run.run w = (.ok (), { w with
      fileSystem := created.setBytes number ((created.bytesOf own).extract range.offset.toNat
        (range.offset.toNat + range.size.toNat)) }) := by
  obtain ⟨sink, hcopy, hreceived⟩ := FileRange.copyTo_of_fits hfile hlow hfits
  unfold extractRange
  rw [run_get_bind, hcreate, ← hreceived]
  dsimp only [orFail]
  rw [pure_bind, hcopy]
  rfl

/-- What an extraction writes of the RomFS of a container, if it has one. -/
def romfsWrites (fs : FileSystem) (c : Container) (own : Nat) (output : Path) :
    List (Path × Bytes) :=
  match embeddedRomfsAnswer c (.file own) with
  | .ok range => [(romfsTarget output, (fs.bytesOf own).extract range.offset.toNat
      (range.offset.toNat + range.size.toNat))]
  | .error _ => []

theorem fst_of_mem_romfsWrites {write : Path × Bytes} (h : write ∈ romfsWrites fs c own output) :
    write.1 = romfsTarget output := by
  unfold romfsWrites at h
  split at h
  · rw [List.mem_singleton.mp h]
  · cases h

/-- The RomFS of a container has bytes, and ends where offsets still do. -/
theorem embeddedRomfs_bounds (h : Plain fs request.input request.offset naming own header c)
    {range : FileRange} (hrange : embeddedRomfsAnswer c (.file own) = .ok range) :
    range.file = .file own ∧ 0 < range.size.toNat ∧
      range.offset.toNat + range.size.toNat < 2 ^ 64 := by
  obtain ⟨hfile, hplace, hsize, hsome, hlow⟩ := h.embeddedRomfsAnswer_eq_ok hrange
  have hstart := wordAt_lt (fs.bytesBehind (.file own)) (request.offset.toNat + 0x1b0) 4
  have hunits := wordAt_lt (fs.bytesBehind (.file own)) (request.offset.toNat + 0x1b4) 4
  exact ⟨hfile, by omega, by omega⟩

theorem wrote_of_extractRange {range : FileRange} {p : Path}
    (hsep : w.fileSystem.Separate own targets) (hp : p ∈ targets) (hfile : range.file = .file own)
    (hsome : 0 < range.size.toNat) (hlow : range.offset.toNat + range.size.toNat < 2 ^ 64)
    (h : (extractRange range p).run.run w = (.ok (), after)) :
    range.offset.toNat + range.size.toNat ≤ (w.fileSystem.bytesOf own).size ∧
      FileSystem.Wrote own targets
        [(p, (w.fileSystem.bytesOf own).extract range.offset.toNat
          (range.offset.toNat + range.size.toNat))] w.fileSystem after.fileSystem := by
  obtain ⟨number, created, count, sink, hcreate, hcopy, rfl⟩ := run_extractRange_eq_ok h
  obtain ⟨hreceived, hfits⟩ := FileRange.received_of_copyTo hfile hlow hsome hcopy
  rw [hsep.bytesOf_own_of_create hp hcreate] at hreceived hfits
  refine ⟨hfits, FileSystem.Wrote.of_overwrites hsep hp ⟨number, created, hcreate, ?_⟩⟩
  rw [← hreceived]

/-! ## The whole extraction -/

/-- The files of an extraction: those of the sections and that of the RomFS. -/
def targetsOf (fs : FileSystem) (request : Request) (naming : Naming) : List Path :=
  sectionTargets fs request naming ++ [romfsTarget request.output]

/-- An extraction that went well. All of the container could be read, the paths were written in the
order of the slots, and last the RomFS. -/
structure Extracted (fs : FileSystem) (request : Request) (naming : Naming) (own : Nat)
    (header : ContainerHeader) (c : Container) (now : FileSystem) : Prop where
  plain : Plain fs request.input request.offset naming own header c
  readable : ∀ name ∈ sectionNames fs request.input request.offset naming,
    ∃ bytes, sectionAnswer fs c (.file own) name = .ok bytes
  fits : ∀ range, embeddedRomfsAnswer c (.file own) = .ok range →
    range.offset.toNat + range.size.toNat ≤ (fs.bytesOf own).size
  wrote : FileSystem.Wrote own (targetsOf fs request naming)
    (sectionWrites fs c own naming request.output
      (sectionNames fs request.input request.offset naming) ++
      romfsWrites fs c own request.output) fs now

theorem stage_of_run {out : Bytes}
    (h : (extract request naming).run.run ⟨fs, out⟩ = (.ok (), after)) :
    (Session.loading fs request.input request.offset naming).container.stage = .loaded := by
  obtain ⟨session, -, -, hsession, -⟩ := run_extract_eq_ok.mp h
  obtain ⟨-, hstage, -⟩ := container_of_loaded hsession
  exact hstage

theorem plain_of_stage
    (hstage : (Session.loading fs request.input request.offset naming).container.stage = .loaded)
    (hopen : fs.openPath request.input = .ok (.file own))
    (halone : OverrideSet.resolve fs request.input naming = .empty) :
    ∃ header, Plain fs request.input request.offset naming own header
      (Session.loading fs request.input request.offset naming).container := by
  obtain ⟨file, header, hfirst, -⟩ := load_of_stage hstage
  obtain rfl : file = .file own := Except.ok.inj (hfirst.file_at.symm.trans hopen)
  exact ⟨header, hfirst, halone⟩

theorem sectionTarget_mem
    (hname : name ∈ sectionNames fs request.input request.offset naming) :
    sectionTarget naming request.output name ∈ targetsOf fs request naming :=
  List.mem_append_left _ (List.mem_map_of_mem hname)

theorem fst_mem_of_sectionWrites : ∀ write ∈ sectionWrites fs c own naming request.output
    (sectionNames fs request.input request.offset naming),
    write.1 ∈ targetsOf fs request naming :=
  List.forall_mem_map.mpr fun _ => sectionTarget_mem

theorem romfsTarget_mem : romfsTarget request.output ∈ targetsOf fs request naming :=
  List.mem_append_right _ (List.mem_singleton_self _)

/-- The slots of a container are extracted like the sections that are found in its file. -/
theorem run_slots_iff (h : Plain fs request.input request.offset naming own header c)
    (hsession : session.container = c)
    (hsep : w.fileSystem.Separate own (targetsOf fs request naming))
    (hown : w.fileSystem.bytesOf own = fs.bytesOf own) :
    (((session.container.table?.map SectionTable.used).getD []).forM fun slot =>
        extractSection session naming request.output slot.name.text).run.run w = (.ok (), after) ↔
      (∀ name ∈ sectionNames fs request.input request.offset naming,
        ∃ bytes, sectionAnswer fs c (.file own) name = .ok bytes) ∧
      ∃ now, FileSystem.writeEach (request.output.join "exefs")
        (sectionWrites fs c own naming request.output
          (sectionNames fs request.input request.offset naming)) w.fileSystem = some now ∧
        after = { w with fileSystem := now } := by
  refine Iff.trans ?_
    (run_sections_iff h hsession _ (fun _ => sectionTarget_mem) hsep hown)
  rw [← h.sectionNames_eq, ← hsession, List.forM_eq_forM, List.forM_eq_forM, List.forM_map]

theorem locateRomfs_eq (h : Plain fs request.input request.offset naming own header c)
    (hsession : session.container = c) (now : FileSystem) :
    ((locateRomfs now).perform session).1 = embeddedRomfsAnswer c (.file own) := by
  subst hsession
  rw [(locateRomfs_ready h.ready now).outcome_eq, h.romfsAnswer_eq]

/-- A container without override files is extracted exactly if its sections can be read, their files
be written, and after them that of the RomFS if there is one. -/
theorem run_extract_iff
    (hc : (Session.loading fs request.input request.offset naming).container = c)
    (h : Plain fs request.input request.offset naming own header c)
    (hsep : fs.Separate own (targetsOf fs request naming)) (out : Bytes) :
    (extract request naming).run.run ⟨fs, out⟩ = (.ok (), after) ↔
      (∀ name ∈ sectionNames fs request.input request.offset naming,
        ∃ bytes, sectionAnswer fs c (.file own) name = .ok bytes) ∧
      ∃ made last, fs.makeDirectories request.output = .ok made ∧
        FileSystem.writeEach (request.output.join "exefs")
          (sectionWrites fs c own naming request.output
            (sectionNames fs request.input request.offset naming)) made = some last ∧
        match embeddedRomfsAnswer c (.file own) with
        | .ok range =>
          (extractRange range (romfsTarget request.output)).run.run ⟨last, out⟩ = (.ok (), after)
        | .error _ => after = ⟨last, out⟩ := by
  constructor
  · intro hrun
    obtain ⟨session, made, middle, hsession, hmade, hall, hlast⟩ := run_extract_eq_ok.mp hrun
    obtain ⟨-, -, hcontainer⟩ := container_of_loaded hsession
    rw [hc] at hcontainer
    have hdirectory := FileSystem.Wrote.of_makeDirectories hsep hmade
    obtain ⟨hreads, last, hwrites, rfl⟩ :=
      (run_slots_iff h hcontainer hdirectory.separate hdirectory.own_eq).mp hall
    rw [locateRomfs_eq h hcontainer] at hlast
    refine ⟨hreads, made, last, hmade, hwrites, ?_⟩
    cases hromfs : embeddedRomfsAnswer c (.file own) with
    | ok range =>
      rw [hromfs] at hlast
      exact hlast
    | error e =>
      rw [hromfs] at hlast
      exact hlast.2
  · rintro ⟨hreads, made, last, hmade, hwrites, hlast⟩
    obtain ⟨session, hsession, hcontainer⟩ := run_loaded (w := ⟨fs, out⟩) (hc ▸ h.stage_eq)
    rw [hc] at hcontainer
    have hdirectory := FileSystem.Wrote.of_makeDirectories hsep hmade
    have hslots := (run_slots_iff (w := ⟨made, out⟩) h hcontainer hdirectory.separate
      hdirectory.own_eq).mpr ⟨hreads, last, hwrites, rfl⟩
    refine run_extract_eq_ok.mpr ⟨session, made, ⟨last, out⟩, hsession, hmade, hslots, ?_⟩
    rw [locateRomfs_eq h hcontainer]
    cases hromfs : embeddedRomfsAnswer c (.file own) with
    | ok range =>
      rw [hromfs] at hlast
      exact hlast
    | error e =>
      rw [hromfs] at hlast
      exact ⟨status_of_romfsAnswer ((h.romfsAnswer_eq last).trans hromfs), hlast⟩

/-- A container whose RomFS is in its file is extracted if the files can be made. -/
theorem run_extract_of_fits
    (hc : (Session.loading fs request.input request.offset naming).container = c)
    (h : Plain fs request.input request.offset naming own header c)
    (hsep : fs.Separate own (targetsOf fs request naming))
    (hreads : ∀ name ∈ sectionNames fs request.input request.offset naming,
      ∃ bytes, sectionAnswer fs c (.file own) name = .ok bytes)
    {range : FileRange} (hrange : embeddedRomfsAnswer c (.file own) = .ok range)
    (hlow : range.offset.toNat + range.size.toNat < 2 ^ 63)
    (hfits : range.offset.toNat + range.size.toNat ≤ (fs.bytesOf own).size)
    {made last created : FileSystem} {number : Nat}
    (hmade : fs.makeDirectories request.output = .ok made)
    (hall : FileSystem.writeEach (request.output.join "exefs")
      (sectionWrites fs c own naming request.output
        (sectionNames fs request.input request.offset naming)) made = some last)
    (hcreate : last.create (romfsTarget request.output) = .ok (number, created)) (out : Bytes) :
    (extract request naming).run.run ⟨fs, out⟩ = (.ok (),
      ⟨created.setBytes number ((fs.bytesOf own).extract range.offset.toNat
        (range.offset.toNat + range.size.toNat)), out⟩) := by
  have hdirectory := FileSystem.Wrote.of_makeDirectories hsep hmade
  have hsections :=
    FileSystem.wrote_of_writeEach hdirectory.separate fst_mem_of_sectionWrites hall
  have hown : created.bytesOf own = fs.bytesOf own :=
    (hsections.separate.bytesOf_own_of_create romfsTarget_mem hcreate).trans
      (hsections.own_eq.trans hdirectory.own_eq)
  obtain ⟨hfile, -, -⟩ := embeddedRomfs_bounds h hrange
  rw [← hown] at hfits ⊢
  refine (run_extract_iff hc h hsep out).mpr ⟨hreads, made, last, hmade, hall, ?_⟩
  rw [hrange]
  exact run_extractRange_of_fits (w := ⟨last, out⟩) hfile hlow hfits hcreate

theorem extracted_of_run (hopen : fs.openPath request.input = .ok (.file own))
    (halone : OverrideSet.resolve fs request.input naming = .empty)
    (hsep : fs.Separate own (targetsOf fs request naming)) {out : Bytes}
    (h : (extract request naming).run.run ⟨fs, out⟩ = (.ok (), after)) :
    ∃ header, Extracted fs request naming own header
      (Session.loading fs request.input request.offset naming).container after.fileSystem := by
  obtain ⟨header, hplain⟩ := plain_of_stage (stage_of_run h) hopen halone
  obtain ⟨hreads, made, last, hmade, hall, hlast⟩ := (run_extract_iff rfl hplain hsep out).mp h
  have hdirectory := FileSystem.Wrote.of_makeDirectories hsep hmade
  have hboth := hdirectory.trans (FileSystem.wrote_of_writeEach hdirectory.separate
    fst_mem_of_sectionWrites hall) nofun
  cases hromfs : embeddedRomfsAnswer
      (Session.loading fs request.input request.offset naming).container (.file own) with
  | ok range =>
    rw [hromfs] at hlast
    obtain ⟨hfile, hsome, hlow⟩ := embeddedRomfs_bounds hplain hromfs
    have hfits := wrote_of_extractRange hboth.separate romfsTarget_mem hfile hsome hlow hlast
    rw [hboth.own_eq] at hfits
    refine ⟨header, hplain, hreads, ?_, ?_⟩
    · intro other hother
      rw [hromfs] at hother
      cases hother
      exact hfits.1
    · rw [romfsWrites, hromfs]
      exact hboth.trans hfits.2 fst_mem_of_sectionWrites
  | error e =>
    rw [hromfs] at hlast
    cases hlast
    refine ⟨header, hplain, hreads, fun range hrange => ?_, ?_⟩
    · rw [hromfs] at hrange
      cases hrange
    · rw [romfsWrites, hromfs, List.append_nil]
      exact hboth

section

variable {arguments : List String} (h : readArguments arguments = .ok request)
  (hverb : request.verb = .extract) (hnaming : request.path? .naming = none)
  (hexit : (run fs arguments).exitCode = 0)
include h hverb hnaming hexit

theorem run_extract_of_exitCode : (extract request .standard).run.run ⟨fs, #[]⟩ =
    (.ok (), (run fs arguments).world) := by
  obtain ⟨hworld, hcode⟩ := run_extract hverb hnaming h fs
  rw [hworld]
  exact Prod.ext (hcode.mp hexit) rfl

theorem extracted_of_exitCode (hopen : fs.openPath request.input = .ok (.file own))
    (halone : OverrideSet.resolve fs request.input .standard = .empty)
    (hsep : fs.Separate own (targetsOf fs request .standard)) :
    ∃ header, Extracted fs request .standard own header
      (Session.loading fs request.input request.offset .standard).container
      (run fs arguments).world.fileSystem :=
  extracted_of_run hopen halone hsep (run_extract_of_exitCode h hverb hnaming hexit)

end

end Command

end Cartridge
