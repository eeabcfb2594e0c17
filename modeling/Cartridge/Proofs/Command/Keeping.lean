import Cartridge.Proofs.Command.Contents

/-!
# Which sections an extraction keeps

Each section is written to a file of its own, but for one pair: the section `.code` has the
configured name of the file that `code` would have without a configured one. A container with both
keeps the later of them only.
-/
namespace Cartridge

open Container

namespace Command

variable {fs now : FileSystem} {request : Request} {output : Path} {name other : String} {own : Nat}
  {header : ContainerHeader} {c : Container}

/-! ## File names -/

/-- A section has its configured file name, or else one that is made of its own name. -/
theorem extractedName_cases (name : String) :
    (∃ entry ∈ Naming.standard.files, entry.name = name ∧
      extractedName .standard name = entry.fileName) ∨
    (∀ entry ∈ Naming.standard.files, entry.name ≠ name) ∧
      extractedName .standard name = name ++ ".bin" := by
  unfold extractedName Naming.fileName?
  cases hfind : Naming.standard.files.find? fun entry => entry.name = name with
  | some entry =>
    have hname : entry.name = name := by simpa using List.find?_some hfind
    exact .inl ⟨entry, List.mem_of_find?_eq_some hfind, hname, rfl⟩
  | none =>
    have hall := List.find?_eq_none.mp hfind
    exact .inr ⟨fun entry hentry hname => hall entry hentry (decide_eq_true hname), rfl⟩

/-- The one configured file name that another section can have is that of the code. -/
theorem eq_of_fileName_eq {entry : SectionFile} (hentry : entry ∈ Naming.standard.files)
    (h : entry.fileName = name ++ ".bin") : entry.name = ".code" ∧ name = "code" := by
  have hends : ∀ entry ∈ Naming.standard.files, ".bin".toList <:+ entry.fileName.toList →
      entry.name = ".code" ∧ entry.fileName = "code" ++ ".bin" := by decide
  have hsuffix : ".bin".toList <:+ entry.fileName.toList := by
    rw [h, String.toList_append]
    exact List.suffix_append _ _
  obtain ⟨hname, hfile⟩ := hends entry hentry hsuffix
  refine ⟨hname, ?_⟩
  rw [h] at hfile
  exact (String.append_left_inj _).mp hfile

theorem extractedName_eq_iff : extractedName .standard name = extractedName .standard other ↔
    name = other ∨ name = ".code" ∧ other = "code" ∨ name = "code" ∧ other = ".code" := by
  constructor
  · intro h
    rcases extractedName_cases name with ⟨entry, hentry, rfl, hfile⟩ | ⟨-, hfile⟩
    · rcases extractedName_cases other with ⟨entry', hentry', rfl, hfile'⟩ | ⟨-, hfile'⟩
      · have hunique : ∀ a ∈ Naming.standard.files, ∀ b ∈ Naming.standard.files,
            a.fileName = b.fileName → a.name = b.name := by decide
        exact .inl (hunique entry hentry entry' hentry' (by rw [← hfile, h, hfile']))
      · exact .inr (.inl (eq_of_fileName_eq hentry (by rw [← hfile, h, hfile'])))
    · rcases extractedName_cases other with ⟨entry', hentry', rfl, hfile'⟩ | ⟨-, hfile'⟩
      · exact .inr (.inr (eq_of_fileName_eq hentry' (by rw [← hfile', ← h, hfile])).symm)
      · left
        rw [hfile, hfile'] at h
        exact (String.append_left_inj _).mp h
  · rintro (rfl | ⟨rfl, rfl⟩ | ⟨rfl, rfl⟩)
    · rfl
    · rfl
    · rfl

/-! ## The files of the sections -/

theorem placeOf_sectionTarget_eq (hname : '/' ∉ name.toList) (hother : '/' ∉ other.toList)
    (h : fs.placeOf (sectionTarget .standard output other) =
      fs.placeOf (sectionTarget .standard output name)) :
    extractedName .standard other = extractedName .standard name := by
  rw [placeOf_sectionTarget fs output hname, placeOf_sectionTarget fs output hother] at h
  simpa using h

theorem placeOf_sectionTarget_ne_romfs (hname : '/' ∉ name.toList) :
    fs.placeOf (sectionTarget .standard output name) ≠ fs.placeOf (romfsTarget output) := by
  rw [placeOf_sectionTarget fs output hname, placeOf_romfsTarget]
  intro h
  simpa using congrArg List.length h

/-- The file of a section holds what was read of the last section with this file name. -/
theorem Extracted.file_eq (h : Extracted fs request .standard own header c now)
    (hplain : ∀ name ∈ sectionNames fs request.input request.offset .standard, '/' ∉ name.toList)
    (hname : name ∈ sectionNames fs request.input request.offset .standard) :
    ∃ other ∈ sectionNames fs request.input request.offset .standard,
      extractedName .standard other = extractedName .standard name ∧
      now.wholeFile? (sectionTarget .standard request.output name) =
        some (contentsOf c fs own other) := by
  obtain ⟨⟨p, bytes⟩, hwrite, hplace, hholds⟩ := h.wrote.last
    (sectionTarget .standard request.output name, contentsOf c fs own name)
    (List.mem_append_left _ (List.mem_map_of_mem hname))
  rcases List.mem_append.mp hwrite with hsection | hromfs
  · obtain ⟨other, hother, hpair⟩ := List.mem_map.mp hsection
    cases hpair
    exact ⟨other, hother, placeOf_sectionTarget_eq (hplain name hname) (hplain other hother) hplace,
      hholds⟩
  · rw [fst_of_mem_romfsWrites hromfs] at hplace
    exact absurd hplace.symm (placeOf_sectionTarget_ne_romfs (hplain name hname))

/-- The file of this section holds the bytes that the section is read as. -/
def Keeps (fs : FileSystem) (request : Request) (now : FileSystem) (name : String) : Prop :=
  ∃ bytes, ((Session.loading fs request.input request.offset .standard).run fs
      (.readSection name)).1 = .ok (.bytes bytes) ∧
    now.wholeFile? (sectionTarget .standard request.output name) = some bytes

section

variable (h : Extracted fs request .standard own header
  (Session.loading fs request.input request.offset .standard).container now)
include h

theorem Extracted.read_eq (name : String) :
    ((Session.loading fs request.input request.offset .standard).run fs (.readSection name)).1 =
      (sectionAnswer fs (Session.loading fs request.input request.offset .standard).container
        (.file own) name).map .bytes :=
  h.plain.ready.outcome_run fs (.readSection name)

/-- A section is kept if all sections with its file name are read as the same bytes. -/
theorem Extracted.keeps_of_same
    (hplain : ∀ name ∈ sectionNames fs request.input request.offset .standard, '/' ∉ name.toList)
    (hname : name ∈ sectionNames fs request.input request.offset .standard)
    (hsame : ∀ other ∈ sectionNames fs request.input request.offset .standard,
      extractedName .standard other = extractedName .standard name →
      ((Session.loading fs request.input request.offset .standard).run fs
          (.readSection other)).1 =
        ((Session.loading fs request.input request.offset .standard).run fs
          (.readSection name)).1) : Keeps fs request now name := by
  obtain ⟨other, hother, hfile, hholds⟩ := h.file_eq hplain hname
  obtain ⟨bytes, hbytes⟩ := h.readable other hother
  have hread := h.read_eq other
  rw [hsame other hother hfile, hbytes] at hread
  rw [contentsOf_of_ok hbytes] at hholds
  exact ⟨bytes, hread, hholds⟩

/-- Without a section `code` every section is kept. -/
theorem Extracted.keeps
    (hplain : ∀ name ∈ sectionNames fs request.input request.offset .standard, '/' ∉ name.toList)
    (hcode : "code" ∉ sectionNames fs request.input request.offset .standard)
    (hname : name ∈ sectionNames fs request.input request.offset .standard) :
    Keeps fs request now name := by
  apply h.keeps_of_same hplain hname
  intro other hother hfile
  rcases extractedName_eq_iff.mp hfile with rfl | ⟨-, rfl⟩ | ⟨rfl, -⟩
  · rfl
  · exact absurd hname hcode
  · exact absurd hother hcode

end

/-- An extraction that succeeds has read every section. It keeps each that has a file name of its
own, and all of them unless `.code` and `code` are both there and differ. -/
theorem keeps_of_extract (fs : FileSystem) {arguments : List String} {request : Request} {own : Nat}
    (h : readArguments arguments = .ok request) (hverb : request.verb = .extract)
    (hnaming : request.path? .naming = none)
    (hopen : fs.openPath request.input = .ok (.file own))
    (halone : OverrideSet.resolve fs request.input .standard = .empty)
    (hplain : ∀ name ∈ sectionNames fs request.input request.offset .standard, '/' ∉ name.toList)
    (hsep : fs.Separate own (targetsOf fs request .standard))
    (hexit : (run fs arguments).exitCode = 0) :
    let now := (run fs arguments).world.fileSystem
    let names := sectionNames fs request.input request.offset .standard
    let read name := ((Session.loading fs request.input request.offset .standard).run fs
      (.readSection name)).1
    (∀ name ∈ names, ∃ bytes, read name = .ok (.bytes bytes)) ∧
    (∀ name ∈ names, name ∉ [".code", "code"] → Keeps fs request now name) ∧
    ((∀ name ∈ names, Keeps fs request now name) ↔
      (".code" ∈ names → "code" ∈ names → read ".code" = read "code")) := by
  obtain ⟨header, hextracted⟩ :=
    extracted_of_exitCode h hverb hnaming hexit hopen halone hsep
  intro now names read
  refine ⟨?_, ?_, ?_, ?_⟩
  · intro name hname
    obtain ⟨bytes, hbytes⟩ := hextracted.readable name hname
    exact ⟨bytes, (hextracted.read_eq name).trans (by rw [hbytes]; rfl)⟩
  · intro name hname hown
    apply hextracted.keeps_of_same hplain hname
    intro other hother hfile
    rcases extractedName_eq_iff.mp hfile with rfl | ⟨-, rfl⟩ | ⟨-, rfl⟩
    · rfl
    · exact absurd (by decide) hown
    · exact absurd (by decide) hown
  · intro hall hcode hplainCode
    obtain ⟨bytes, hread, hholds⟩ := hall ".code" hcode
    obtain ⟨bytes', hread', hholds'⟩ := hall "code" hplainCode
    -- Both sections have this file, which holds one of them at most.
    have htarget : sectionTarget .standard request.output ".code" =
        sectionTarget .standard request.output "code" := rfl
    rw [htarget, hholds'] at hholds
    cases hholds
    exact hread.trans hread'.symm
  · intro hsame name hname
    apply hextracted.keeps_of_same hplain hname
    intro other hother hfile
    rcases extractedName_eq_iff.mp hfile with rfl | ⟨rfl, rfl⟩ | ⟨rfl, rfl⟩
    · rfl
    · exact hsame hother hname
    · exact (hsame hname hother).symm

/-- The one section of a container, which keeps its bytes. -/
theorem keeps_of_extract_data :
    let answer := run (oneSection "data") ["extract", "-i", "game.cxi", "-o", "out/sub"]
    answer.exitCode = 0 ∧
      sectionNames (oneSection "data") extractGame.input extractGame.offset .standard = ["data"] ∧
      Keeps (oneSection "data") extractGame answer.world.fileSystem "data" := by
  dsimp only
  have hknown : "data" ∈ twoNames := by decide
  have hexit := exitCode_oneSection hknown
  have hnames := sectionNames_oneSection hknown
  have hopen : ((oneSection "data").openPath extractGame.input).toOption = some (.file 0) := by
    decide +kernel
  have halone : OverrideSet.resolve (oneSection "data") extractGame.input .standard = .empty := by
    decide +kernel
  have hnew : ∀ p ∈ [sectionTarget .standard extractGame.output "data",
      romfsTarget extractGame.output],
      (oneSection "data").handleAt? ((oneSection "data").placeOf p) = none := by decide +kernel
  have hsep : (oneSection "data").Separate 0
      (targetsOf (oneSection "data") extractGame .standard) := by
    rw [targetsOf, sectionTargets, hnames]
    exact FileSystem.separate_of_new (by decide) hnew
  obtain ⟨-, hkeeps, -⟩ := keeps_of_extract (oneSection "data") readArguments_extractGame rfl rfl
    (eq_ok_of_toOption hopen) halone (by rw [hnames]; decide) hsep hexit
  rw [hnames] at hkeeps
  exact ⟨hexit, hnames, hkeeps "data" (List.mem_singleton_self _) (by decide)⟩

/-- A container with a section `.code` and a section `code`. -/
def bothSections : FileSystem where
  contents := #[(containerOf (utf8 ".code" ++ List.replicate 7 0 ++ octets 4 4 ++ utf8 "code" ++
    List.replicate 4 0 ++ octets 4 4 ++ octets 4 4 ++ List.replicate 0x1e0 0 ++
    utf8 "PROGDATA")).toArray]
  entries := [(["game.cxi"], .file 0)]
  workingDirectory := []

theorem sectionNames_bothSections :
    sectionNames bothSections extractGame.input extractGame.offset .standard =
      [".code", "code"] := by decide +kernel

theorem plain_bothSections :
    ∃ header, Plain bothSections extractGame.input extractGame.offset .standard 0 header
      (Session.loading bothSections extractGame.input extractGame.offset .standard).container := by
  have hrequired : ∀ requirement ∈ requirements bothSections extractGame.input extractGame.offset
      .standard, requirement.holds := by decide +kernel
  have hopen : (bothSections.openPath extractGame.input).toOption = some (.file 0) := by
    decide +kernel
  have halone : OverrideSet.resolve bothSections extractGame.input .standard = .empty := by
    decide +kernel
  exact plain_of_stage (loading_of_requirements hrequired) (eq_ok_of_toOption hopen) halone

theorem sectionAnswer_bothSections :
    sectionAnswer bothSections
        (Session.loading bothSections extractGame.input extractGame.offset .standard).container
        (.file 0) ".code" = .ok (utf8 "PROG").toArray ∧
      sectionAnswer bothSections
        (Session.loading bothSections extractGame.input extractGame.offset .standard).container
        (.file 0) "code" = .ok (utf8 "DATA").toArray := by
  obtain ⟨header, h⟩ := plain_bothSections
  have hfs : bothSections.Addressable := FileSystem.addressable_of_contents (by decide +kernel)
  have houtcome : ∀ pair ∈ [(".code", "PROG"), ("code", "DATA")],
      (sectionOutcome bothSections extractGame.input .standard (.file 0) extractGame.offset.toNat
        pair.1).toOption = some (utf8 pair.2).toArray := by decide +kernel
  have hread (name : String) := h.sectionAnswer_eq hfs name
  rw [h.path_eq, h.naming_eq, h.offset_eq] at hread
  constructor
  · rw [hread, eq_ok_of_toOption (houtcome (".code", "PROG") (by decide))]
  · rw [hread, eq_ok_of_toOption (houtcome ("code", "DATA") (by decide))]

/-- The run succeeds, and the one file of both sections holds the second of them. -/
theorem extract_bothSections :
    ∃ now, (extract extractGame .standard).run.run ⟨bothSections, #[]⟩ = (.ok (), ⟨now, #[]⟩) ∧
      now.wholeFile? (sectionTarget .standard extractGame.output ".code") =
        some (utf8 "DATA").toArray := by
  obtain ⟨header, h⟩ := plain_bothSections
  obtain ⟨hcode, hother⟩ := sectionAnswer_bothSections
  have hwrites : (bothSections.makeDirectories extractGame.output).toOption.bind (fun made =>
      (FileSystem.writeEach (extractGame.output.join "exefs")
        [(sectionTarget .standard extractGame.output ".code", (utf8 "PROG").toArray),
          (sectionTarget .standard extractGame.output "code", (utf8 "DATA").toArray)] made).bind
        fun last => last.wholeFile? (sectionTarget .standard extractGame.output ".code")) =
      some (utf8 "DATA").toArray := by decide +kernel
  obtain ⟨made, hmade, hrest⟩ := Option.bind_eq_some_iff.mp hwrites
  obtain ⟨last, hall, hholds⟩ := Option.bind_eq_some_iff.mp hrest
  have hnew : ∀ p ∈ [sectionTarget .standard extractGame.output ".code",
      sectionTarget .standard extractGame.output "code", romfsTarget extractGame.output],
      bothSections.handleAt? (bothSections.placeOf p) = none := by decide +kernel
  have hsep : bothSections.Separate 0 (targetsOf bothSections extractGame .standard) := by
    rw [targetsOf, sectionTargets, sectionNames_bothSections]
    exact FileSystem.separate_of_new (by decide) hnew
  have hromfs := h.romfsAnswer_eq bothSections
  rw [h.romfsAnswer_of_absent (by decide +kernel) (by decide +kernel)] at hromfs
  have hreads : ∀ name ∈ sectionNames bothSections extractGame.input extractGame.offset .standard,
      ∃ bytes, sectionAnswer bothSections
        (Session.loading bothSections extractGame.input extractGame.offset .standard).container
        (.file 0) name = .ok bytes := by
    rw [sectionNames_bothSections]
    intro name hname
    rcases List.mem_pair.mp hname with rfl | rfl
    · exact ⟨_, hcode⟩
    · exact ⟨_, hother⟩
  refine ⟨last, (run_extract_iff rfl h hsep #[]).mpr
    ⟨hreads, made, last, eq_ok_of_toOption hmade, ?_, ?_⟩, hholds⟩
  · rw [sectionNames_bothSections, sectionWrites, List.map_cons, List.map_cons, List.map_nil,
      contentsOf_of_ok hcode, contentsOf_of_ok hother]
    exact hall
  · rw [← hromfs]

/-- The section `.code` is read as one thing and its file holds another, after a run that
succeeded. -/
theorem loses_code :
    let answer := run bothSections ["extract", "-i", "game.cxi", "-o", "out/sub"]
    answer.exitCode = 0 ∧
      OverrideSet.resolve bothSections extractGame.input .standard = .empty ∧
      sectionNames bothSections extractGame.input extractGame.offset .standard =
        [".code", "code"] ∧
      ((Session.loading bothSections extractGame.input extractGame.offset .standard).run bothSections
        (.readSection ".code")).1 = .ok (.bytes (utf8 "PROG").toArray) ∧
      answer.world.fileSystem.wholeFile? (sectionTarget .standard extractGame.output ".code") =
        some (utf8 "DATA").toArray ∧
      ¬Keeps bothSections extractGame answer.world.fileSystem ".code" := by
  dsimp only
  obtain ⟨now, hrun, hholds⟩ := extract_bothSections
  obtain ⟨header, h⟩ := plain_bothSections
  have hread := h.ready.outcome_run bothSections (.readSection ".code")
  rw [answer, sectionAnswer_bothSections.1] at hread
  obtain ⟨hworld, hcode⟩ := run_extract rfl rfl readArguments_extractGame bothSections
  rw [hworld, hrun]
  refine ⟨hcode.mpr (congrArg Prod.fst hrun), h.alone, sectionNames_bothSections, hread, hholds, ?_⟩
  rintro ⟨bytes, hbytes, hfile⟩
  rw [hread] at hbytes
  cases hbytes
  rw [hholds] at hfile
  exact absurd hfile (by decide)

end Command

end Cartridge
