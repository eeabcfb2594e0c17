import Cartridge.Proofs.Container.Completion
import Cartridge.Proofs.Container.Records

/-!
# How the parts of a container fit each other

Between two operations the stage of a container says which of its parts are there: a header only
when loading has ended, an extended header and a section table only when it has succeeded. What is
there is valid: the two headers name one program, and no section ends after its ExeFS.
-/
namespace Cartridge

namespace SectionTable

theorem checkBounds_eq_ok_iff {t : SectionTable} {limit : UInt64} :
    t.checkBounds limit = .ok () ↔
      ∀ slot ∈ t.used, 0x200 + slot.offset.toNat + slot.size.toNat ≤ limit.toNat := by
  rw [checkBounds_eq_find?]
  cases hfind : t.used.find? fun slot => limit < sectionEnd slot with
  | none =>
    have hall : ∀ slot ∈ t.used, ¬limit < sectionEnd slot := by simpa using hfind
    refine iff_of_true rfl fun slot hslot => ?_
    rw [← toNat_sectionEnd, ← UInt64.le_iff_toNat_le]
    exact UInt64.not_lt.mp (hall slot hslot)
  | some slot =>
    have habove : limit < sectionEnd slot := by simpa using List.find?_some hfind
    refine iff_of_false nofun fun hall => ?_
    have hbelow := hall slot (List.mem_of_find?_eq_some hfind)
    rw [← toNat_sectionEnd, ← UInt64.le_iff_toNat_le] at hbelow
    exact absurd habove (UInt64.not_lt.mpr hbelow)

end SectionTable

namespace Container

variable {fs : FileSystem} {image path : Path} {offset : UInt64} {file : Handle}
  {header : ContainerHeader} {c : Container}

theorem tableAt_inside {start limit : UInt64} {table : SectionTable}
    (h : tableAt fs file start limit = .ok table) :
    ∀ slot ∈ table.used, 0x200 + slot.offset.toNat + slot.size.toNat ≤ limit.toNat := by
  simp only [tableAt, bind_eq_ok, mapError_eq_ok] at h
  obtain ⟨bytes, -, found, -, _, hbounds, hfound⟩ := h
  cases hfound
  exact SectionTable.checkBounds_eq_ok_iff.mp hbounds

/-- What the parts of a container and its stage say of each other. -/
structure Representation (c : Container) : Prop where
  not_validated : c.stage ≠ .headerValidated
  closed_of_unopened : c.stage = .unopened → c.file = none
  open_of_opened : c.stage = .opened → c.file.isSome
  header_of_loaded : c.stage = .loaded → c.hasHeader
  /-- A valid header, and the file it was read from, are there until the end once they are. -/
  of_header : c.hasHeader → c.file.isSome ∧ (c.stage = .loaded ∨ ∃ status, c.stage = .failed status) ∧
    ∃ header, c.header? = some header ∧ header.magic.bytes.toList = containerMagic ∧
      (c.hasExtended ↔ header.extendedSize ≠ 0) ∧ (c.hasRomfs ↔ header.romfs.size ≠ 0)
  of_no_header : c.hasHeader = false →
    c.hasExtended = false ∧ c.hasExefs = false ∧ c.hasRomfs = false ∧ c.isCompressed = false ∧
    c.header? = none ∧ c.extended? = none ∧ c.table? = none
  extended_of_compressed : c.isCompressed → c.hasExtended
  extended_iff : c.extended?.isSome ↔ c.stage = .loaded ∧ c.hasExtended
  extended_id : ∀ extended, c.extended? = some extended →
    ∃ header, c.header? = some header ∧ extended.programId = header.programId
  table_iff : c.table?.isSome ↔ c.stage = .loaded ∧ c.hasExefs
  /-- The sections of the container itself end within the size that its header declares. -/
  embedded_inside : ∀ table, c.table? = some table → c.usesImage = false →
    ∃ header, c.header? = some header ∧ ∀ slot ∈ table.used,
      0x200 + slot.offset.toNat + slot.size.toNat ≤ 0x200 * header.exefs.size.toNat

theorem Bare.representation (h : Bare c) (hvalidated : c.stage ≠ .headerValidated)
    (hloaded : c.stage ≠ .loaded) (hclosed : c.stage = .unopened → c.file = none)
    (hopened : c.stage = .opened → c.file.isSome) : Representation c := by
  have hheader : c.hasHeader = false := by rw [h.noted.header_eq, h.header_eq]; rfl
  have hextended : c.extended? = none := by simp [extended?, isLoaded, hloaded]
  have htable : c.table? = none := by simp [table?, store?, h.store_eq]
  constructor
  · exact hvalidated
  · exact hclosed
  · exact hopened
  · exact fun h => absurd h hloaded
  · intro hnoted
    rw [hheader] at hnoted
    cases hnoted
  · intro _
    refine ⟨?_, ?_, ?_, h.compressed_eq, ?_, hextended, htable⟩
    · rw [h.noted.extended_eq, h.header_eq, Option.any_none]
    · rw [h.noted.exefs_eq, usesImage_of_store h.store_eq, h.header_eq, Option.any_none]
      rfl
    · rw [h.noted.romfs_eq, h.header_eq, Option.any_none]
    · rw [header?, h.header_eq, ite_self]
  · intro hcompressed
    rw [h.compressed_eq] at hcompressed
    cases hcompressed
  · rw [hextended]
    exact iff_of_false Bool.false_ne_true fun h => hloaded h.1
  · intro extended hsome
    rw [hextended] at hsome
    cases hsome
  · rw [htable]
    exact iff_of_false Bool.false_ne_true fun h => hloaded h.1
  · intro table hsome
    rw [htable] at hsome
    cases hsome

theorem representation_of_header (hheader : c.header = some header) (hnoted : Noted c)
    (hfile : c.file = some file) (hmagic : header.magic.bytes.toList = containerMagic)
    (hstage : c.stage = .loaded ∨ ∃ status, c.stage = .failed status)
    (hcompressed : c.isCompressed = true → header.hasExtended = true)
    (hextended : c.extended?.isSome ↔ c.stage = .loaded ∧ c.hasExtended)
    (hid : ∀ extended, c.extended? = some extended → extended.programId = header.programId)
    (htable : c.table?.isSome ↔ c.stage = .loaded ∧ c.hasExefs)
    (hinside : ∀ table, c.table? = some table → c.usesImage = false → ∀ slot ∈ table.used,
      0x200 + slot.offset.toNat + slot.size.toNat ≤ 0x200 * header.exefs.size.toNat) :
    Representation c := by
  have hthere : c.hasHeader = true := by rw [hnoted.header_eq, hheader]; rfl
  have hshown : c.header? = some header := by rw [header?, if_pos hthere, hheader]
  have hdeclared := hnoted.hasExtended_of_header hheader
  constructor
  · intro h
    simp [h] at hstage
  · intro h
    simp [h] at hstage
  · intro h
    simp [h] at hstage
  · exact fun _ => hthere
  · intro _
    refine ⟨by rw [hfile]; rfl, hstage, header, hshown, hmagic, ?_, ?_⟩
    · rw [hdeclared, ContainerHeader.hasExtended, bne_iff_ne]
    · rw [hnoted.hasRomfs_of_header hheader, ContainerHeader.hasRomfs, bne_iff_ne]
  · intro h
    rw [hthere] at h
    cases h
  · intro h
    rw [hdeclared]
    exact hcompressed h
  · exact hextended
  · exact fun extended hsome => ⟨header, hshown, hid extended hsome⟩
  · exact htable
  · exact fun table hsome himage => ⟨header, hshown, hinside table hsome himage⟩

theorem Gathered.extended?_eq (h : Gathered fs image file header c) : c.extended? = c.extended := by
  have hnoted := h.noted.hasExtended_of_header h.header_eq
  rcases findExtended_eq_ok h.extended_read with ⟨hdeclared, -⟩ | ⟨hdeclared, habsent⟩
  · simp [extended?, isLoaded, hnoted, hdeclared, h.stage_eq]
  · simp [extended?, hnoted, hdeclared, habsent]

theorem Gathered.representation (h : Gathered fs image file header c) : Representation c := by
  have hextended := findExtended_eq_ok h.extended_read
  have hdeclared := h.noted.hasExtended_of_header h.header_eq
  have htable : c.table? = c.store.map SectionStore.table := by rw [table?, h.store?_eq]
  refine representation_of_header h.header_eq h.noted h.file_eq (magic_of_headerAt h.header_read)
    (.inl h.stage_eq) ?_ ?_ ?_ ?_ ?_
  · intro hcompressed
    rw [h.compressed_eq] at hcompressed
    rcases hextended with ⟨hsize, -⟩ | ⟨-, habsent⟩
    · exact hsize
    · rw [habsent] at hcompressed
      cases hcompressed
  · rw [h.extended?_eq, hdeclared, h.stage_eq]
    rcases hextended with ⟨hsize, extended, -, -, hsome⟩ | ⟨hsize, habsent⟩
    · simp [hsize, hsome]
    · simp [hsize, habsent]
  · intro extended hsome
    rw [h.extended?_eq] at hsome
    rcases hextended with ⟨-, found, -, hid, hfound⟩ | ⟨-, habsent⟩
    · cases hsome.symm.trans hfound
      exact hid
    · rw [habsent] at hsome
      cases hsome
  · rw [htable, Option.isSome_map, h.hasExefs_eq, h.stage_eq]
    exact (and_iff_right rfl).symm
  · intro table hsome himage
    have hstore := storeFound h.store_read
    rw [htable] at hsome
    rw [usesImage] at himage
    generalize c.store = store at hstore hsome himage
    cases hstore with
    | image _ hread => simp [imageStore_source hread, Source.isOverride, Source.path?] at himage
    | embedded _ _ hread =>
      cases hsome
      have hinside := tableAt_inside hread
      rwa [HashedRegion.byteSize, toNat_unitBytes] at hinside
    | absent => cases hsome

theorem Formed.representation (h : Formed c) : Representation c := by
  cases h with
  | untouched hstage hfile hbare =>
    exact hbare.representation (by simp [hstage]) (by simp [hstage]) (fun _ => hfile)
      (by simp [hstage])
  | opened hstage hfile hbare =>
    exact hbare.representation (by simp [hstage]) (by simp [hstage]) (by simp [hstage])
      (fun _ => by simp [hfile])
  | refused hstage hbare =>
    exact hbare.representation (by simp [hstage]) (by simp [hstage]) (by simp [hstage])
      (by simp [hstage])
  | @broken status file header hstage hfile hheader hmagic hcompressed hstore hnoted =>
    have hextended : c.extended? = none := by simp [extended?, isLoaded, hstage]
    have htable : c.table? = none := by simp [table?, store?, hstore]
    refine representation_of_header hheader hnoted hfile hmagic (.inr ⟨status, hstage⟩) hcompressed ?_ ?_
      ?_ ?_
    · simp [hextended, hstage]
    · simp [hextended]
    · simp [htable, hstage]
    · simp [htable]
  | loaded hgathered => exact hgathered.representation

theorem Formed.loaded_of_store (h : Formed c) {store : SectionStore} (hstore : c.store = some store) :
    c.stage = .loaded := by
  have hnone : c.store ≠ none := by simp [hstore]
  cases h with
  | untouched _ _ hbare => exact absurd hbare.store_eq hnone
  | opened _ _ hbare => exact absurd hbare.store_eq hnone
  | refused _ hbare => exact absurd hbare.store_eq hnone
  | broken _ _ _ _ _ habsent => exact absurd habsent hnone
  | loaded hgathered => exact hgathered.stage_eq

/-- After every history the parts of a container fit each other, and the sections of an image ended
within it when the container was loaded. -/
theorem representation_runAll (path : Path) (offset : UInt64) (naming : Naming)
    (history : List (FileSystem × Operation)) :
    let start := Session.begin path offset naming
    let c := (start.runAll history).container
    Representation c ∧
    ∀ store image, c.store = some store → store.source = .override image →
      ∃ before fs op after, history = before ++ (fs, op) :: after ∧
        (start.runAll before).container.stage ≠ .loaded ∧
        ((start.runAll before).run fs op).2.container.stage = .loaded ∧
        fs.openPath image = .ok store.file ∧
        ∀ slot ∈ store.table.used,
          0x200 + slot.offset.toNat + slot.size.toNat ≤ (fs.bytesBehind store.file).length := by
  intro start c
  have hformed : Formed c := (wellFormed_runAll path offset naming history).formed
  refine ⟨hformed.representation, fun store image hstore hsource => ?_⟩
  have hloaded := hformed.loaded_of_store hstore
  obtain ⟨before, fs, op, after, place, file, header, hhistory, hbefore, hafter, hgathered⟩ :=
    exists_load path offset naming history hloaded
  have hread := hgathered.store_read
  rw [show ((Session.begin path offset naming).runAll history).container.store = some store
    from hstore] at hread
  have hfound := storeFound hread
  cases hfound with
  | image _ hread =>
    obtain ⟨opened, table, hopen, htableAt, rfl⟩ := imageStore_eq_some_iff.mp hread
    cases hsource
    refine ⟨before, fs, op, after, hhistory, hbefore, hafter, hopen, fun slot hslot => ?_⟩
    have hsize := sizeOf_le_of_readable (by decide) (readable_of_tableAt htableAt)
    exact Nat.le_trans (tableAt_inside htableAt slot hslot) hsize
  | embedded => cases hsource

end Container
end Cartridge
