import Cartridge.Proofs.Container.Sections

/-!
# The override files that are found

Image and RomFS are found under their own names. A section is overridden by the file of the first
entry for it whose file is there, and not simply by that of the first entry: a file that is missing
leaves room for a later one. What the conventions have found a file for they have a file name for,
and as long as they stay the same, no section that has been found is unknown to them.
-/
namespace Cartridge

open Procedure

/-- Where the file of an entry is looked for. -/
def Naming.fileOf (naming : Naming) (path : Path) (entry : SectionFile) : Path :=
  (path.withSuffix naming.directorySuffix).join entry.fileName

namespace OverrideSet

variable {fs : FileSystem} {path p : Path} {naming : Naming} {name : String}

/-! ## Searches -/

/-- The path leads to the file of the first entry for the section whose file is there. -/
def IsFirst (fs : FileSystem) (path : Path) (naming : Naming) (name : String) (p : Path) : Prop :=
  ∃ before entry after, naming.files = before ++ entry :: after ∧ entry.name = name ∧
    naming.fileOf path entry = p ∧ fs.isFile p = true ∧
    ∀ earlier ∈ before, earlier.name = name → fs.isFile (naming.fileOf path earlier) = false

/-- What there is next to the container at a path is known, and nothing else. -/
structure Found (fs : FileSystem) (path : Path) (naming : Naming) (o : OverrideSet) : Prop where
  exefs_iff : ∀ p, o.exefs = .override p ↔
    p = path.withSuffix naming.imageSuffix ∧ fs.isFile p = true
  romfs_iff : ∀ p, o.romfs = .override p ↔
    p = path.withSuffix naming.romfsSuffix ∧ fs.isFile p = true
  section_iff : ∀ name p, o.section? name = .override p ↔
    fs.isDirectory (path.withSuffix naming.directorySuffix) = true ∧ IsFirst fs path naming name p
  embedded_iff : ∀ name, o.section? name = .embedded ↔
    fs.isDirectory (path.withSuffix naming.directorySuffix) = false ∨
      ∀ entry ∈ naming.files, entry.name = name → fs.isFile (naming.fileOf path entry) = false
  tainted_iff : o.isTainted = true ↔
    o.exefs.isOverride = true ∨ o.romfs.isOverride = true ∨
      ∃ name, (o.section? name).isOverride = true
  fileName_of_override : ∀ name, (o.section? name).isOverride = true →
    (naming.fileName? name).isSome = true

theorem ofFile_eq_override {q : Path} :
    Source.ofFile fs q = .override p ↔ p = q ∧ fs.isFile p = true := by
  unfold Source.ofFile
  by_cases hfile : fs.isFile q = true
  · rw [if_pos hfile, Source.override.injEq]
    constructor
    · rintro rfl
      exact ⟨rfl, hfile⟩
    · rintro ⟨rfl, -⟩
      rfl
  · rw [if_neg hfile]
    refine iff_of_false nofun ?_
    rintro ⟨rfl, hthere⟩
    exact hfile hthere

/-- A lookup among the pairs that were kept finds the first entry with the key that is to be kept. -/
theorem lookup_filter_map {α β γ : Type} [BEq β] [LawfulBEq β] (key : α → β) (value : α → γ)
    (keep : γ → Bool) (k : β) (l : List α) :
    ((l.map fun a => (key a, value a)).filter fun pair => keep pair.2).lookup k =
      (l.find? fun a => key a == k && keep (value a)).map value := by
  induction l with
  | nil => rfl
  | cons a rest ih =>
    rw [List.map_cons]
    by_cases hkeep : keep (value a) = true
    · rw [List.filter_cons, if_pos hkeep, List.lookup_cons, List.find?_cons, hkeep, Bool.and_true]
      by_cases hkey : key a = k
      · rw [hkey, beq_self_eq_true]
        rfl
      · rw [beq_eq_false_iff_ne.mpr (Ne.symm hkey), beq_eq_false_iff_ne.mpr hkey]
        exact ih
    · rw [List.filter_cons, if_neg hkeep, List.find?_cons, (Bool.not_eq_true _).mp hkeep,
        Bool.and_false]
      exact ih

theorem lookup_sectionFiles_eq
    (hdirectory : fs.isDirectory (path.withSuffix naming.directorySuffix) = true) :
    (sectionFiles fs path naming).lookup name =
      (naming.files.find? fun entry =>
        entry.name == name && fs.isFile (naming.fileOf path entry)).map (naming.fileOf path) := by
  unfold sectionFiles
  rw [if_pos hdirectory]
  exact lookup_filter_map SectionFile.name (naming.fileOf path) fs.isFile name naming.files

/-- Without the directory no section has a file. -/
theorem sectionFiles_eq_nil
    (hdirectory : ¬fs.isDirectory (path.withSuffix naming.directorySuffix) = true) :
    sectionFiles fs path naming = [] :=
  if_neg hdirectory

theorem isFirst_iff :
    IsFirst fs path naming name p ↔
      (naming.files.find? fun entry =>
        entry.name == name && fs.isFile (naming.fileOf path entry)).map (naming.fileOf path) =
          some p := by
  rw [Option.map_eq_some_iff]
  simp only [List.find?_eq_some_iff_append, Bool.and_eq_true, beq_iff_eq, Bool.not_eq_true',
    Bool.and_eq_false_iff, beq_eq_false_iff_ne]
  constructor
  · rintro ⟨before, entry, after, hsplit, hname, rfl, hfile, hbefore⟩
    refine ⟨entry, ⟨⟨hname, hfile⟩, before, after, hsplit, fun earlier hearlier => ?_⟩, rfl⟩
    by_cases hother : earlier.name = name
    · exact Or.inr (hbefore earlier hearlier hother)
    · exact Or.inl hother
  · rintro ⟨entry, ⟨⟨hname, hfile⟩, before, after, hsplit, hbefore⟩, rfl⟩
    refine ⟨before, entry, after, hsplit, hname, rfl, hfile, fun earlier hearlier hsame => ?_⟩
    exact (hbefore earlier hearlier).resolve_left (not_not_intro hsame)

theorem section?_resolve_eq_override :
    (resolve fs path naming).section? name = .override p ↔
      fs.isDirectory (path.withSuffix naming.directorySuffix) = true ∧
        IsFirst fs path naming name p := by
  rw [section?_eq_override, resolve]
  by_cases hdirectory : fs.isDirectory (path.withSuffix naming.directorySuffix) = true
  · rw [lookup_sectionFiles_eq hdirectory, isFirst_iff]
    exact (and_iff_right hdirectory).symm
  · rw [sectionFiles_eq_nil hdirectory]
    exact iff_of_false nofun fun h => hdirectory h.1

theorem section?_eq_embedded {o : OverrideSet} :
    o.section? name = .embedded ↔ o.sections.lookup name = none := by
  unfold section?
  cases o.sections.lookup name with
  | none => exact iff_of_true rfl rfl
  | some found => exact iff_of_false nofun nofun

theorem section?_resolve_eq_embedded :
    (resolve fs path naming).section? name = .embedded ↔
      fs.isDirectory (path.withSuffix naming.directorySuffix) = false ∨
        ∀ entry ∈ naming.files, entry.name = name →
          fs.isFile (naming.fileOf path entry) = false := by
  rw [section?_eq_embedded, resolve]
  by_cases hdirectory : fs.isDirectory (path.withSuffix naming.directorySuffix) = true
  · rw [lookup_sectionFiles_eq hdirectory, Option.map_eq_none_iff, List.find?_eq_none]
    simp [hdirectory]
  · rw [sectionFiles_eq_nil hdirectory]
    exact iff_of_true rfl (Or.inl ((Bool.not_eq_true _).mp hdirectory))

/-- There is a file for some section if any file was kept. -/
theorem sections_ne_nil_iff {o : OverrideSet} :
    o.sections ≠ [] ↔ ∃ name, (o.section? name).isOverride = true := by
  constructor
  · intro hsome
    obtain ⟨⟨name, p⟩, rest, hsections⟩ := List.exists_cons_of_ne_nil hsome
    refine ⟨name, ?_⟩
    have hlookup : o.sections.lookup name = some p := by
      rw [hsections, List.lookup_cons, beq_self_eq_true]
    rw [section?_eq_override.mpr hlookup]
    rfl
  · rintro ⟨name, hover⟩ hnone
    have hembedded : o.section? name = .embedded := by
      rw [section?_eq_embedded, hnone]
      rfl
    rw [hembedded] at hover
    cases hover

theorem isTainted_iff {o : OverrideSet} :
    o.isTainted = true ↔ o.exefs.isOverride = true ∨ o.romfs.isOverride = true ∨
      ∃ name, (o.section? name).isOverride = true := by
  rw [← sections_ne_nil_iff, isTainted, Bool.or_eq_true, Bool.or_eq_true, or_assoc,
    Bool.not_eq_true', List.isEmpty_eq_false_iff]

theorem found_resolve (fs : FileSystem) (path : Path) (naming : Naming) :
    Found fs path naming (resolve fs path naming) where
  exefs_iff _ := ofFile_eq_override
  romfs_iff _ := ofFile_eq_override
  section_iff _ _ := section?_resolve_eq_override
  embedded_iff _ := section?_resolve_eq_embedded
  tainted_iff := isTainted_iff
  fileName_of_override name hover := by
    cases hsource : (resolve fs path naming).section? name with
    | embedded =>
      rw [hsource] at hover
      cases hover
    | override p => exact Option.isSome_iff_ne_none.mpr (section?_resolve hsource).2

end OverrideSet

namespace Container

variable {fs : FileSystem} {naming : Naming} {file : Handle} {header : ContainerHeader}
  {c : Container} {s : Session} {op : Operation}

/-! ## Records of one search -/

/-- A container with these conventions that knows of files only for sections that they name. -/
structure Named (naming : Naming) (c : Container) : Prop where
  naming_eq : c.naming = naming
  fileName_of_override : ∀ name, (c.overrides.section? name).isOverride = true →
    (naming.fileName? name).isSome = true

theorem named_begin (path : Path) (offset : UInt64) (naming : Naming) :
    Named naming (Session.begin path offset naming).container :=
  ⟨rfl, nofun⟩

/-- A search makes sure of it, whatever was known before. -/
theorem named_of_search (h : c.naming = naming)
    (hsearch : c.overrides = .resolve fs c.path c.naming) : Named naming c := by
  refine ⟨h, fun name hover => ?_⟩
  rw [hsearch, h] at hover
  exact (OverrideSet.found_resolve fs c.path naming).fileName_of_override name hover

/-- No failure for want of a file name. -/
def Informed {α : Type} (x : Except ContainerError α) : Prop :=
  ∀ e, x = .error e → ∀ name, e ≠ .notFound name

namespace Informed

variable {α β ε : Type} {e : ContainerError}

theorem of_ok (x : α) : Informed (.ok x : Except ContainerError α) := nofun

theorem of_error (h : ∀ name, e ≠ .notFound name) :
    Informed (.error e : Except ContainerError α) := by
  intro other hother
  cases hother
  exact h

theorem of_mapError {wrap : ε → ContainerError} (h : ∀ cause name, wrap cause ≠ .notFound name)
    (x : Except ε α) : Informed (x.mapError wrap) := by
  cases x with
  | ok a => exact of_ok a
  | error cause => exact of_error (h cause)

theorem bind {x : Except ContainerError α} {f : α → Except ContainerError β} (hx : Informed x)
    (hf : ∀ a, Informed (f a)) : Informed (x >>= f) := by
  cases x with
  | ok a => exact hf a
  | error e => exact of_error (hx e rfl)

theorem headerAt (fs : FileSystem) (file : Handle) (start : UInt64) :
    Informed (headerAt fs file start) :=
  bind (of_mapError nofun _) fun _ => bind (of_mapError nofun _) fun _ =>
    bind (of_mapError nofun _) fun _ => of_ok _

theorem extendedAt (fs : FileSystem) (file : Handle) (start : UInt64) :
    Informed (extendedAt fs file start) :=
  bind (of_mapError nofun _) fun _ => of_mapError nofun _

theorem tableAt (fs : FileSystem) (file : Handle) (start limit : UInt64) :
    Informed (tableAt fs file start limit) :=
  bind (of_mapError nofun _) fun _ => bind (of_mapError nofun _) fun _ =>
    bind (of_mapError nofun _) fun _ => of_ok _

theorem openResult (fs : FileSystem) (c : Container) : Informed (openResult fs c).1 := by
  unfold Container.openResult
  cases c.file with
  | some file => exact of_ok file
  | none =>
    cases fs.openPath c.path with
    | ok file => exact of_ok file
    | error e => exact of_error nofun

end Informed

/-- A part of a load that has this result does not fail for want of a file name, and what it leaves
is named as before. -/
structure Provided (naming : Naming) (r : Result) : Prop where
  named : Named naming r.2
  informed : Informed r.1

theorem provided_extendedResult (h : Named naming c) (fs : FileSystem) (file : Handle)
    (header : ContainerHeader) : Provided naming (extendedResult fs file header c) := by
  unfold extendedResult
  cases hread : extendedAt fs file (c.offset + UInt64.ofNat ContainerHeader.byteSize) with
  | error e => exact ⟨h, .of_error (Informed.extendedAt _ _ _ e hread)⟩
  | ok extended =>
    dsimp only
    split
    · exact ⟨⟨h.naming_eq, h.fileName_of_override⟩, .of_error nofun⟩
    · exact ⟨⟨h.naming_eq, h.fileName_of_override⟩, .of_ok ()⟩

theorem provided_tableResult (h : Named naming c) (fs : FileSystem) (file : Handle)
    (header : ContainerHeader) : Provided naming (tableResult fs file header c) := by
  unfold tableResult
  cases c.overrides.exefs.path?.bind (imageStore? fs) with
  | some store => exact ⟨⟨h.naming_eq, h.fileName_of_override⟩, .of_ok ()⟩
  | none =>
    dsimp only
    unfold embeddedResult
    split
    · dsimp only
      cases hread : tableAt fs file (c.offset + header.exefs.byteOffset) header.exefs.byteSize with
      | error e =>
        exact ⟨⟨h.naming_eq, h.fileName_of_override⟩,
          .of_error (Informed.tableAt _ _ _ _ e hread)⟩
      | ok table => exact ⟨⟨h.naming_eq, h.fileName_of_override⟩, .of_ok ()⟩
    · exact ⟨⟨h.naming_eq, h.fileName_of_override⟩, .of_ok ()⟩

theorem provided_sectionsResult (h : Named naming c) (fs : FileSystem) (file : Handle)
    (header : ContainerHeader) : Provided naming (sectionsResult fs file header c) := by
  unfold sectionsResult
  split
  · have hextended := provided_extendedResult h fs file header
    cases hresult : extendedResult fs file header c with
    | mk outcome next =>
      rw [hresult] at hextended
      cases outcome with
      | error e => exact ⟨hextended.named, hextended.informed⟩
      | ok _ => exact provided_tableResult hextended.named fs file header
  · exact provided_tableResult h fs file header

theorem provided_stepsResult (h : Named naming c) (fs : FileSystem) :
    Provided naming (stepsResult fs c) := by
  have hinformed := Informed.openResult fs c
  unfold stepsResult
  rcases openResult_eq fs c with ⟨e, hopen⟩ | ⟨file, stage, hopen⟩
  · rw [hopen] at hinformed ⊢
    exact ⟨h, .of_error (hinformed e rfl)⟩
  · rw [hopen]
    dsimp only
    cases hread : headerAt fs file c.offset with
    | error e =>
      exact ⟨⟨h.naming_eq, h.fileName_of_override⟩, .of_error (Informed.headerAt _ _ _ e hread)⟩
    | ok header =>
      refine provided_sectionsResult ?_ fs file header
      exact named_of_search h.naming_eq rfl

/-- No load is at a loss for a file name, from whatever state it begins. -/
theorem load_provided (h : Named naming c) (fs : FileSystem) :
    ∃ outcome next, Runs (load fs) c outcome next ∧ Provided naming (outcome, next) := by
  have hsteps := provided_stepsResult h fs
  have hresult : Provided naming (loadResult fs c) :=
    ⟨⟨hsteps.named.naming_eq, hsteps.named.fileName_of_override⟩, hsteps.informed⟩
  cases hstage : c.stage with
  | unopened => exact ⟨_, _, load_runs (.inl hstage), hresult⟩
  | opened => exact ⟨_, _, load_runs (.inr (.inl hstage)), hresult⟩
  | headerValidated => exact ⟨_, _, load_runs (.inr (.inr hstage)), hresult⟩
  | loaded => exact ⟨_, _, load_of_loaded hstage, h, .of_ok ()⟩
  | failed status => exact ⟨_, _, load_of_failed hstage, h, .of_error nofun⟩

/-! ## Histories under the same conventions -/

theorem keeps_named_openFile : Keeps (Named naming) (openFile fs) :=
  keeps_openFile fun _ _ h _ _ => ⟨h.naming_eq, h.fileName_of_override⟩

theorem steady_named : Steady fs (Named naming) where
  load := .of_runs fun _ hc =>
    have ⟨outcome, next, hrun, hnext⟩ := load_provided hc fs
    ⟨outcome, next, hrun, hnext.named⟩
  reopen _ _ _ := keeps_named_openFile

/-- Every operation keeps a container named that leaves its conventions as they are. -/
theorem named_run (h : Named naming s.container) (fs : FileSystem)
    (hop : ∀ renamed, op = .useNaming renamed → renamed = naming) :
    Named naming (s.run fs op).2.container := by
  have hkeeps : Keeps (Named naming) (op.perform fs) := by
    cases op with
    | findOverrides =>
      refine .bind (.of_runs fun c hc => ?_) fun _ => .of_pure _
      exact ⟨_, _, findOverrides_runs fs c, named_of_search hc.naming_eq rfl⟩
    | useNaming renamed =>
      refine .bind (.of_update fun c hc => ?_) fun _ => .of_pure _
      exact ⟨hop renamed rfl, hc.fileName_of_override⟩
    | _ => exact steady_named.perform _ rfl fun _ => keeps_named_openFile
  exact hkeeps s h

theorem named_runAll (history : List (FileSystem × Operation)) (h : Named naming s.container)
    (hsame : ∀ step ∈ history, ∀ renamed, step.2 = .useNaming renamed → renamed = naming) :
    Named naming (s.runAll history).container := by
  induction history generalizing s with
  | nil => exact h
  | cons step rest ih =>
    obtain ⟨fs, op⟩ := step
    have hnext := named_run h fs (hsame (fs, op) List.mem_cons_self)
    exact ih hnext fun other hother => hsame other (List.mem_cons_of_mem _ hother)

/-- Where the conventions have a file name for a section, its override file may be missing, but is
not unknown. -/
theorem ne_notFound_of_fileName {name : String} (h : Named naming s.container) (fs : FileSystem)
    (hname : (naming.fileName? name).isSome = true) (other : String) :
    (s.run fs (.readOverrideSection name)).1 ≠ .error (.notFound other) := by
  obtain ⟨outcome, next, hrun, hnext⟩ := load_provided h fs
  have hanswer : Informed (overrideAnswer fs next name) := by
    unfold overrideAnswer
    rw [hnext.named.naming_eq, if_neg (Option.isSome_iff_ne_none.mp hname)]
    split
    · exact .of_ok _
    · exact .of_error nofun
  have hread : Runs (Operation.perform fs (.readOverrideSection name)) s.container _ next :=
    (readOverrideSection_of_load hrun name).map Answer.bytes
  rw [Session.run, hread.outcome_eq]
  have houtcome := hnext.informed.bind fun _ => hanswer
  intro hsame
  cases hresult : (outcome >>= fun _ => overrideAnswer fs next name) with
  | ok bytes =>
    rw [hresult] at hsame
    cases hsame
  | error e =>
    rw [hresult] at hsame
    cases hsame
    exact houtcome _ hresult other rfl

/-- A search finds what there is, and for every section the first of its files. As long as the
conventions of a container stay the same, a section whose file was found, before the section is
read or by the load that this begins with, is never one that is not known. -/
theorem found_and_known (fs : FileSystem) (path : Path) (naming : Naming) :
    OverrideSet.Found fs path naming (.resolve fs path naming) ∧
    ∀ (offset : UInt64) (history : List (FileSystem × Operation)),
      (∀ step ∈ history, ∀ renamed, step.2 = .useNaming renamed → renamed = naming) →
      ∀ (now : FileSystem) (name other : String),
        let s := (Session.begin path offset naming).runAll history
        let answer := s.run now (.readOverrideSection name)
        (s.container.overrides.section? name).isOverride = true ∨
            (answer.2.container.overrides.section? name).isOverride = true →
          answer.1 ≠ .error (.notFound other) := by
  refine ⟨OverrideSet.found_resolve fs path naming, fun offset history hsame now name other => ?_⟩
  intro s answer hfound
  have hnamed : Named naming s.container :=
    named_runAll history (named_begin path offset naming) hsame
  have hafter : Named naming answer.2.container := named_run hnamed now nofun
  have hname : (naming.fileName? name).isSome = true := by
    rcases hfound with hbefore | hnow
    · exact hnamed.fileName_of_override name hbefore
    · exact hafter.fileName_of_override name hnow
  exact ne_notFound_of_fileName hnamed now hname other

/-- Conventions with three file names for the icon. -/
def severalIcons : Naming :=
  { Naming.standard with
    files := [⟨"icon", "first"⟩, ⟨"banner", "banner"⟩, ⟨"icon", "second"⟩, ⟨"icon", "third"⟩] }

/-- The second and the third file for the icon, and a banner that is a directory. -/
def laterIcons : FileSystem where
  contents := #[#[2], #[3]]
  entries :=
    [(["game.cxi.exefsdir"], .directory), (["game.cxi.exefsdir", "banner"], .directory),
      (["game.cxi.exefsdir", "second"], .file 0), (["game.cxi.exefsdir", "third"], .file 1)]
  workingDirectory := []

/-- The second icon is found, and then known on whatever files. The container itself is missing. -/
theorem found_and_known_second :
    let s := (Session.begin ⟨"game.cxi"⟩ 0 severalIcons).runAll
      [(laterIcons, .findOverrides), (.empty [], .useNaming severalIcons)]
    s.container.overrides.section? "icon" = .override ⟨"game.cxi.exefsdir/second"⟩ ∧
      s.container.overrides.section? "banner" = .embedded ∧ ∀ now other,
        (s.run now (.readOverrideSection "icon")).1 ≠ .error (.notFound other) := by
  have hicon : ((Session.begin ⟨"game.cxi"⟩ 0 severalIcons).runAll
      [(laterIcons, .findOverrides), (.empty [], .useNaming severalIcons)]).container.overrides.section?
        "icon" = .override ⟨"game.cxi.exefsdir/second"⟩ := by decide +kernel
  refine ⟨hicon, by decide +kernel, fun now other => ?_⟩
  obtain ⟨-, hknown⟩ := found_and_known laterIcons ⟨"game.cxi"⟩ severalIcons
  refine hknown 0 _ (fun step hstep renamed hrenamed => ?_) now "icon" other (Or.inl ?_)
  · simp only [List.mem_cons, List.not_mem_nil, or_false] at hstep
    rcases hstep with rfl | rfl
    · cases hrenamed
    · cases hrenamed
      rfl
  · exact congrArg Source.isOverride hicon

end Container
end Cartridge
