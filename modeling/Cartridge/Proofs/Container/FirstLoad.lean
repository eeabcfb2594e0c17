import Cartridge.Container.Operation
import Cartridge.Proofs.Container.Records

/-!
# The first load

What the first load of a container requires, in order, of the bytes of its files. It succeeds
if all of it holds, and fails by the first requirement that does not.
-/
namespace Cartridge

open Procedure

/-- Something that has to hold, and the error if it does not. -/
structure Requirement where
  holds : Bool
  error : ContainerError

/-- The error of the first requirement that does not hold, if there is one. -/
def firstFailure (requirements : List Requirement) : Except ContainerError Unit :=
  match requirements.find? (!·.holds) with
  | some requirement => .error requirement.error
  | none => .ok ()

theorem firstFailure_eq_ok_iff (requirements : List Requirement) :
    firstFailure requirements = .ok () ↔ ∀ r ∈ requirements, r.holds := by
  unfold firstFailure
  cases hfind : requirements.find? (!·.holds) with
  | none => simpa [List.find?_eq_none] using hfind
  | some r =>
    have hr : r.holds = false := by simpa using List.find?_some hfind
    constructor
    · intro h
      cases h
    · intro hall
      rw [hall r (List.mem_of_find?_eq_some hfind)] at hr
      cases hr

theorem firstFailure_append (first second : List Requirement) :
    firstFailure (first ++ second) = firstFailure first >>= fun _ => firstFailure second := by
  simp only [firstFailure, List.find?_append]
  cases first.find? (!·.holds) <;> rfl

namespace Container

variable {fs : FileSystem} {file : Handle} {offset : UInt64} {b : List UInt8}

/-- The magic number of the header at a place. -/
def magicAt (b : List UInt8) (start : Nat) : FixedName 4 :=
  ⟨FixedName.padded 4 ((b.drop (start + 0x100)).take 4) (List.length_take_le ..)⟩

def headerRequirements (fs : FileSystem) (file : Handle) (start : Nat) : List Requirement :=
  let b := fs.bytesBehind file
  [⟨fs.Readable file start 0x200, shortRead file start 0x200⟩,
   ⟨(b.drop (start + 0x100)).take 4 = containerMagic, .header (.invalidMagic (magicAt b start))⟩]

/-- The extended header follows the header, if that gives it a size. -/
def extendedRequirements (fs : FileSystem) (file : Handle) (start : Nat) : List Requirement :=
  let b := fs.bytesBehind file
  let absent := wordAt b (start + 0x180) 4 = 0
  let id := wordAt b (start + 0x118) 8
  let extendedId := wordAt b (start + 0x200 + 0x200) 8
  [⟨absent ∨ fs.Readable file (start + 0x200) 0x800, shortRead file (start + 0x200) 0x800⟩,
   ⟨absent ∨ extendedId = id, .encrypted (UInt64.ofNat id) (UInt64.ofNat extendedId)⟩]

/-- An image can be used if it is a file that holds a table and all of its used sections. -/
def UsableImage (fs : FileSystem) (image : Path) : Prop :=
  match fs.openHandle image with
  | .ok (.file number) =>
    0x200 ≤ (fs.bytesOf number).size ∧
      ∀ slot : Fin 8, SectionTable.Inside (fs.bytesOf number).toList 0
        (fs.sizeOf (.file number)).toNat slot
  | _ => False

instance {image : Path} : Decidable (UsableImage fs image) := by
  unfold UsableImage
  split <;> infer_instance

/-- The table of the ExeFS has to be there if the header gives the ExeFS a size, unless there is
an image to use. -/
def tableRequirements (fs : FileSystem) (file : Handle) (start : Nat) (image : Path) :
    List Requirement :=
  let b := fs.bytesBehind file
  let table := start + 0x200 * wordAt b (start + 0x1a0) 4
  let size := 0x200 * wordAt b (start + 0x1a4) 4
  let needless := UsableImage fs image ∨ size = 0
  ⟨needless ∨ fs.Readable file table 0x200, shortRead file table 0x200⟩ ::
    (List.finRange 8).map fun (slot : Fin 8) =>
      ⟨needless ∨ SectionTable.Inside b table size slot,
       .sectionTable (SectionTable.slotError b table slot (UInt64.ofNat size))⟩

/-- What the first load requires. -/
def requirements (fs : FileSystem) (path : Path) (offset : UInt64) (naming : Naming) :
    List Requirement :=
  match fs.openPath path with
  | .error e => [⟨false, .file e⟩]
  | .ok file =>
    headerRequirements fs file offset.toNat ++ extendedRequirements fs file offset.toNat ++
      tableRequirements fs file offset.toNat (path.withSuffix naming.imageSuffix)

/-! ## The requirements decide the result -/

theorem firstFailure_cons {r : Requirement} {rest : List Requirement} :
    firstFailure (r :: rest) = if r.holds then firstFailure rest else .error r.error := by
  cases h : r.holds <;> simp [firstFailure, h]

theorem magicAt_eq {block : Block ContainerHeader.byteSize} {start : Nat}
    (h : block.toList = (b.drop start).take 0x200) :
    magicAt b start = (ContainerHeader.ofBlock block).magic := by
  have hmagic := ContainerHeader.magic_ofBlock h
  simp only [magicAt, ← hmagic]
  exact FixedName.padded_toList _ _

/-- Either a requirement on the header fails, or the header is made of a block of the file. -/
theorem headerAt_cases (fs : FileSystem) (file : Handle) (offset : UInt64) :
    (∃ e, headerAt fs file offset = .error e ∧
      firstFailure (headerRequirements fs file offset.toNat) = .error e) ∨
    (∃ block : Block ContainerHeader.byteSize,
      headerAt fs file offset = .ok (.ofBlock block) ∧
      firstFailure (headerRequirements fs file offset.toNat) = .ok () ∧
      fs.Readable file offset.toNat 0x200 ∧
      block.toList = ((fs.bytesBehind file).drop offset.toNat).take 0x200) := by
  by_cases hread : fs.Readable file offset.toNat 0x200
  · obtain ⟨block, hlist, hheader⟩ := headerAt_of_readable hread
    have hmagic := ContainerHeader.magic_ofBlock hlist
    have hfirst : firstFailure (headerRequirements fs file offset.toNat) =
        (ContainerHeader.ofBlock block).validate.mapError .header := by
      simp only [headerRequirements, firstFailure_cons, hread, decide_true, if_true,
        ContainerHeader.validate, magicAt_eq hlist, ← hmagic]
      by_cases h : (ContainerHeader.ofBlock block).magic.bytes.toList = containerMagic
      · simp only [h, decide_true, if_true]
        rfl
      · simp only [h, decide_false, Bool.false_eq_true, if_false]
        rfl
    rw [hheader, hfirst]
    cases (ContainerHeader.ofBlock block).validate with
    | error e => exact Or.inl ⟨.header e, rfl, rfl⟩
    | ok _ => exact Or.inr ⟨block, rfl, rfl, hread, hlist⟩
  · refine Or.inl ⟨_, headerAt_of_not_readable hread, ?_⟩
    simp only [headerRequirements, firstFailure_cons, hread, decide_false, Bool.false_eq_true,
      if_false]

/-- The requirements on the slots of a table are its check. -/
theorem firstFailure_slots (b : List UInt8) (table : Nat) (limit : UInt64) :
    firstFailure ((List.finRange 8).map fun (slot : Fin 8) =>
        ⟨SectionTable.Inside b table limit.toNat slot,
          .sectionTable (SectionTable.slotError b table slot limit)⟩) =
      (SectionTable.boundsAt b table limit).mapError .sectionTable := by
  rw [firstFailure, List.find?_map, SectionTable.boundsAt, SectionTable.outside?]
  simp only [Function.comp_def]
  cases (List.finRange 8).find? fun slot : Fin 8 =>
    !decide (SectionTable.Inside b table limit.toNat slot) <;> rfl

theorem readable_table_iff {number : Nat} :
    fs.Readable (.file number) (0 : UInt64).toNat 0x200 ↔ 0x200 ≤ (fs.bytesOf number).size := by
  have hbytes : (fs.bytesBehind (.file number)).length = (fs.bytesOf number).size :=
    Array.length_toList
  constructor
  · intro hread
    have hfits := hread.2
    rw [hbytes] at hfits
    omega
  · intro hsize
    refine ⟨by decide, ?_⟩
    rw [hbytes]
    exact hsize

/-- An image that is a file has a store exactly if the file can be used. -/
theorem imageStore_isSome_iff {image : Path} {number : Nat}
    (hopen : fs.openPath image = .ok (.file number)) :
    (imageStore? fs image).isSome = true ↔
      0x200 ≤ (fs.bytesOf number).size ∧
        ∀ slot : Fin 8, SectionTable.Inside (fs.bytesOf number).toList 0
          (fs.sizeOf (.file number)).toNat slot := by
  simp only [imageStore?_eq_bind, imageTable?, hopen, Except.toOption, Option.bind_eq_bind,
    Option.bind_some]
  by_cases hread : fs.Readable (.file number) (0 : UInt64).toNat 0x200
  · obtain ⟨bytes, block, hbytes, hblock, hlist⟩ :=
      FileSystem.readExactly_block (n := SectionTable.byteSize) (by decide) hread
    have hofBytes : SectionTable.ofBytes bytes = .ok (.ofBlock block) := by
      simp only [SectionTable.ofBytes, hblock]
    have hbounds := SectionTable.checkBounds_ofBlock hlist (fs.sizeOf (.file number))
    have hinside := SectionTable.boundsAt_eq_ok_iff (fs.bytesBehind (.file number)) 0
      (fs.sizeOf (.file number))
    simp only [hbytes, hofBytes, hbounds, Option.bind_some, Option.pure_def,
      readable_table_iff.mp hread, true_and]
    refine Iff.trans ?_ hinside
    rw [UInt64.toNat_zero]
    generalize SectionTable.boundsAt (fs.bytesBehind (.file number)) 0 _ = outcome
    cases outcome with
    | error e => simp
    | ok _ => simp
  · have hfail :=
      FileSystem.readExactly_of_not_readable (n := SectionTable.byteSize) (by decide) hread
    have hsize : ¬0x200 ≤ (fs.bytesOf number).size := fun h => hread (readable_table_iff.mpr h)
    simp only [hfail, Option.bind_none, Option.isSome_none, Bool.false_eq_true, hsize, false_and]

theorem image_isSome_iff {image : Path} :
    ((Source.ofFile fs image).path?.bind (imageStore? fs)).isSome = true ↔
      UsableImage fs image := by
  unfold Source.ofFile FileSystem.isFile UsableImage
  cases hopen : fs.openHandle image with
  | error e => simp [Source.path?]
  | ok handle =>
    cases handle with
    | directory => simp [Source.path?]
    | file number =>
      have hpath : fs.openPath image = .ok (.file number) := by
        rw [FileSystem.openPath, hopen]
        rfl
      simp only [if_true, Source.path?, Option.bind_some]
      exact imageStore_isSome_iff hpath

section

variable {c : Container} {block : Block ContainerHeader.byteSize}
  (hread : fs.Readable file c.offset.toNat 0x200)
  (hlist : block.toList = ((fs.bytesBehind file).drop c.offset.toNat).take 0x200)
include hread hlist

theorem extendedResult_outcome (hextended : (ContainerHeader.ofBlock block).hasExtended = true) :
    (extendedResult fs file (.ofBlock block) c).1 =
      firstFailure (extendedRequirements fs file c.offset.toNat) := by
  have hsize := (ContainerHeader.hasExtended_ofBlock hlist).mp hextended
  have hid := ContainerHeader.programId_ofBlock hlist
  have hplace : (c.offset + UInt64.ofNat ContainerHeader.byteSize).toNat =
      c.offset.toNat + 0x200 := toNat_add_of_low hread.1 (by decide)
  simp only [extendedRequirements, firstFailure_cons, hsize, false_or]
  rw [← hplace]
  unfold extendedResult
  by_cases hbody : fs.Readable file (c.offset + UInt64.ofNat ContainerHeader.byteSize).toNat 0x800
  · obtain ⟨body, hbodyList, hbodyAt⟩ := extendedAt_of_readable hbody
    have hbodyId := ExtendedHeader.programId_ofBlock hbodyList
    simp only [hbodyAt, hbody, decide_true, if_true, ← hid, ← hbodyId, UInt64.ofNat_toNat,
      UInt64.toNat_inj]
    by_cases h : (ExtendedHeader.ofBlock body).programId = (ContainerHeader.ofBlock block).programId
    · simp only [h, bne_self_eq_false, Bool.false_eq_true, if_false, decide_true, if_true]
      rfl
    · simp only [bne_iff_ne, ne_eq, h, not_false_eq_true, if_true, decide_false,
        Bool.false_eq_true, if_false]
  · simp only [extendedAt_of_not_readable hbody, hbody, decide_false, Bool.false_eq_true, if_false]

omit hread in
theorem firstFailure_extended_of_absent
    (hextended : ¬(ContainerHeader.ofBlock block).hasExtended = true) :
    firstFailure (extendedRequirements fs file c.offset.toNat) = .ok () := by
  have hsize : wordAt (fs.bytesBehind file) (c.offset.toNat + 0x180) 4 = 0 :=
    Decidable.of_not_not fun h => hextended ((ContainerHeader.hasExtended_ofBlock hlist).mpr h)
  simp only [extendedRequirements, firstFailure_cons, hsize, true_or, decide_true, if_true]
  rfl

theorem embeddedResult_outcome {image : Path} (himage : ¬UsableImage fs image) :
    (embeddedResult fs file (.ofBlock block) c).1 =
      firstFailure (tableRequirements fs file c.offset.toNat image) := by
  have hplace : (c.offset + (ContainerHeader.ofBlock block).exefs.byteOffset).toNat =
      c.offset.toNat + 0x200 * wordAt (fs.bytesBehind file) (c.offset.toNat + 0x1a0) 4 := by
    rw [toNat_add_of_low hread.1 (HashedRegion.byteOffset_lt _), ContainerHeader.exefs_byteOffset_ofBlock hlist]
  have hlimit := ContainerHeader.exefs_byteSize_ofBlock hlist
  by_cases hexefs : (ContainerHeader.ofBlock block).hasExefs = true
  · have hsize : ¬0x200 * wordAt (fs.bytesBehind file) (c.offset.toNat + 0x1a4) 4 = 0 := by
      have hword := (ContainerHeader.hasExefs_ofBlock hlist).mp hexefs
      omega
    simp only [tableRequirements, firstFailure_cons, himage, hsize, false_or]
    rw [← hplace, ← hlimit]
    simp only [UInt64.ofNat_toNat, firstFailure_slots, embeddedResult, hexefs, if_true]
    by_cases htable : fs.Readable file
        (c.offset + (ContainerHeader.ofBlock block).exefs.byteOffset).toNat 0x200
    · obtain ⟨tableBlock, -, htableAt⟩ :=
        tableAt_of_readable (ContainerHeader.ofBlock block).exefs.byteSize htable
      simp only [htableAt, htable, decide_true, if_true]
      generalize SectionTable.boundsAt _ _ _ = bounds
      cases bounds <;> rfl
    · simp only [tableAt_of_not_readable htable, htable, decide_false, Bool.false_eq_true,
        if_false]
  · have hsize : wordAt (fs.bytesBehind file) (c.offset.toNat + 0x1a4) 4 = 0 :=
      Decidable.of_not_not fun h => hexefs ((ContainerHeader.hasExefs_ofBlock hlist).mpr h)
    have hall : firstFailure (tableRequirements fs file c.offset.toNat image) = .ok () := by
      rw [firstFailure_eq_ok_iff]
      simp [tableRequirements, hsize]
    rw [hall, embeddedResult, if_neg hexefs]

/-- The table of the container itself matters only if there is no image to use. -/
theorem tableResult_outcome {image : Path} (hsource : c.overrides.exefs = .ofFile fs image) :
    (tableResult fs file (.ofBlock block) c).1 =
      firstFailure (tableRequirements fs file c.offset.toNat image) := by
  unfold tableResult
  rw [hsource]
  by_cases himage : UsableImage fs image
  · have hall : firstFailure (tableRequirements fs file c.offset.toNat image) = .ok () := by
      rw [firstFailure_eq_ok_iff]
      simp [tableRequirements, himage]
    obtain ⟨store, hstore⟩ := Option.isSome_iff_exists.mp (image_isSome_iff.mpr himage)
    rw [hall, hstore]
  · have hnone := Option.not_isSome_iff_eq_none.mp fun h => himage (image_isSome_iff.mp h)
    simp only [hnone]
    exact embeddedResult_outcome
      (c := { c with overrides := { c.overrides with exefs := .embedded } }) hread hlist himage

theorem sectionsResult_outcome {image : Path} (hsource : c.overrides.exefs = .ofFile fs image) :
    (sectionsResult fs file (.ofBlock block) c).1 =
      (firstFailure (extendedRequirements fs file c.offset.toNat) >>= fun _ =>
        firstFailure (tableRequirements fs file c.offset.toNat image)) := by
  unfold sectionsResult
  by_cases hextended : (ContainerHeader.ofBlock block).hasExtended = true
  · have hoffset := extendedResult_offset fs file (.ofBlock block) c
    have hoverrides := extendedResult_overrides fs file (.ofBlock block) c
    rw [if_pos hextended, ← extendedResult_outcome hread hlist hextended]
    cases hresult : extendedResult fs file (.ofBlock block) c with
    | mk outcome next =>
      rw [hresult] at hoffset hoverrides
      dsimp only at hoffset hoverrides
      cases outcome with
      | error e => rfl
      | ok _ =>
        rw [← hoverrides] at hsource
        rw [← hoffset] at hread hlist ⊢
        exact tableResult_outcome hread hlist hsource
  · rw [if_neg hextended, firstFailure_extended_of_absent hlist hextended]
    exact tableResult_outcome hread hlist hsource

end

/-- The steps have the outcome of the requirements, on a container whose file is not open. -/
theorem stepsResult_outcome {c : Container} (hfile : c.file = none) :
    (stepsResult fs c).1 = firstFailure (requirements fs c.path c.offset c.naming) := by
  unfold stepsResult openResult requirements
  rw [hfile]
  cases fs.openPath c.path with
  | error e => rfl
  | ok file =>
    dsimp only
    rw [firstFailure_append, firstFailure_append]
    rcases headerAt_cases fs file c.offset with ⟨e, hheader, hfirst⟩ |
      ⟨block, hheader, hfirst, hread, hlist⟩
    · rw [hheader, hfirst]
      rfl
    · rw [hheader, hfirst]
      exact sectionsResult_outcome
        (c := ({ c with file := some file, stage := .opened } : Container).validated fs
          (.ofBlock block)) hread hlist rfl

theorem perform_load_runs {c : Container}
    (h : c.stage = .unopened ∨ c.stage = .opened ∨ c.stage = .headerValidated) :
    Runs (Operation.load.perform fs) c ((loadResult fs c).1.map fun _ => .done)
      (loadResult fs c).2 := by
  have hload : Runs (load fs) c _ _ := load_runs h
  cases hresult : (loadResult fs c).1 with
  | ok _ =>
    rw [hresult] at hload
    exact .bind hload (.of_pure _)
  | error e =>
    rw [hresult] at hload
    exact .bind_error hload

/-- A container is loaded by a load that finds all of its requirements. -/
theorem loaded_of_requirements {path : Path} {naming : Naming}
    (h : ∀ requirement ∈ requirements fs path offset naming, requirement.holds) :
    ((Session.begin path offset naming).run fs .load).2.container.stage = .loaded := by
  have hrun : Runs (Operation.load.perform fs) (Session.begin path offset naming).container _ _ :=
    perform_load_runs (.inl rfl)
  have hfirst : (stepsResult fs (Session.begin path offset naming).container).1 =
      firstFailure (requirements fs path offset naming) := stepsResult_outcome rfl
  show ((Operation.load.perform fs).perform _).2.container.stage = _
  rw [hrun.container_eq, loadResult, hfirst, (firstFailure_eq_ok_iff _).mpr h, endStage]

/-- A first load fails by the first of its requirements that does not hold. -/
theorem failed_of_requirement {path : Path} {naming : Naming} {e : ContainerError}
    (h : firstFailure (requirements fs path offset naming) = .error e) :
    ((Session.begin path offset naming).run fs .load).1 = .error e := by
  have hrun : Runs (Operation.load.perform fs) (Session.begin path offset naming).container _ _ :=
    perform_load_runs (.inl rfl)
  have hfirst : (loadResult fs (Session.begin path offset naming).container).1 =
      firstFailure (requirements fs path offset naming) := stepsResult_outcome rfl
  rw [hfirst, h] at hrun
  exact hrun.outcome_eq

/-- The first load of a container has the outcome that its requirements have in their order: it
succeeds if all of them hold, and the container is loaded; else it fails by the first that does
not, and the container keeps the status of that error. -/
theorem load_requirements (fs : FileSystem) (path : Path) (offset : UInt64) (naming : Naming) :
    let answer := (Session.begin path offset naming).run fs .load
    let outcome := firstFailure (requirements fs path offset naming)
    answer.1 = outcome.map (fun _ => .done) ∧
    (answer.1 = .ok .done ↔ ∀ requirement ∈ requirements fs path offset naming, requirement.holds) ∧
    answer.2.container.stage =
      match outcome with
      | .ok () => .loaded
      | .error e => .failed e.status := by
  intro answer outcome
  have hrun : Runs (Operation.load.perform fs) (Session.begin path offset naming).container _ _ :=
    perform_load_runs (.inl rfl)
  have hfirst : (loadResult fs (Session.begin path offset naming).container).1 = outcome :=
    stepsResult_outcome rfl
  have hstage : (loadResult fs (Session.begin path offset naming).container).2.stage =
      endStage outcome := congrArg endStage hfirst
  rw [hfirst] at hrun
  have houtcome : answer.1 = outcome.map fun _ => .done := hrun.outcome_eq
  have hcontainer : answer.2.container = _ := hrun.container_eq
  rw [houtcome, hcontainer, hstage, ← firstFailure_eq_ok_iff]
  change _ ∧ (_ ↔ outcome = .ok ()) ∧ _
  cases outcome with
  | ok _ => exact ⟨rfl, by simp [Except.map], rfl⟩
  | error e => exact ⟨rfl, by simp [Except.map], rfl⟩

end Container
end Cartridge
