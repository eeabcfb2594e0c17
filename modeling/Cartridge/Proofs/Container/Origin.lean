import Cartridge.Proofs.Container.Sections

/-!
# Where the data come from

A container keeps a record of the override files apart from the ExeFS that it reads from. Loading
sets both so that they agree. To look for override files again sets the record alone: the two agree
from then on only if what is found then is what is in use.
-/
namespace Cartridge

open Procedure

namespace Container

variable {fs now : FileSystem} {image : Path} {file : Handle} {header : ContainerHeader}
  {c : Container} {s : Session}

/-! ## Records and reads -/

/-- Bytes that stand in a file as they are, or are the code that a part of it decompresses to. -/
def TakenFrom (b : List UInt8) (name : String) (bytes : Bytes) : Prop :=
  ∃ piece, piece <:+: b ∧ (bytes = piece.toArray ∨
    name = codeSection ∧ Compression.decompress piece.toArray = .ok bytes)

/-- All that can be read comes from the file of the container, whatever the files are by then. -/
structure OwnReads (s : Session) : Prop where
  of_section : ∀ now name bytes, (s.run now (.readSection name)).1 = .ok (.bytes bytes) →
    ∃ file, s.container.file = some file ∧ TakenFrom (now.bytesBehind file) name bytes
  of_romfs : ∀ now range, (s.run now .locateRomfs).1 = .ok (.range range) →
    s.container.file = some range.file ∧ range.path = s.container.path
  no_override_section : ∀ now name answer, (s.run now (.readOverrideSection name)).1 ≠ .ok answer
  no_override_romfs : ∀ now answer, (s.run now .locateOverrideRomfs).1 ≠ .ok answer

/-- What the container says of its data is true: the image that it names is the one that the ExeFS
in use was opened from at loading, and it reads from its own file if it names no file at all. -/
structure Truthful (fs : FileSystem) (s : Session) : Prop where
  recorded : ∀ p, s.container.overrides.exefs = .override p ↔
    ∃ store, s.container.store = some store ∧ imageStore? fs p = some store
  untainted : s.container.isTainted = false → OwnReads s

/-! ## Records that agree with the ExeFS in use -/

namespace Gathered

variable (h : Gathered fs image file header c)
include h

theorem opened_from_iff (p : Path) :
    (∃ store, c.store = some store ∧ imageStore? fs p = some store) ↔
      sourceOf c.store = .override p := by
  have hfound := storeFound h.store_read
  constructor
  · rintro ⟨store, hstore, himage⟩
    rw [hstore]
    exact imageStore_source himage
  · intro hsource
    generalize c.store = store at hfound hsource
    cases hfound with
    | @image store _ hread =>
      have himage : Source.override image = .override p := (imageStore_source hread).symm.trans hsource
      cases himage
      exact ⟨store, rfl, hread⟩
    | embedded => cases hsource
    | absent => cases hsource

theorem recorded_iff :
    (∀ p, c.overrides.exefs = .override p ↔
      ∃ store, c.store = some store ∧ imageStore? fs p = some store) ↔
    c.overrides.exefs = sourceOf c.store := by
  simp only [h.opened_from_iff]
  constructor
  · intro hrecord
    cases hsource : sourceOf c.store with
    | override p => exact (hrecord p).mpr hsource
    | embedded =>
      cases hexefs : c.overrides.exefs with
      | embedded => rfl
      | override p =>
        rw [(hrecord p).mp hexefs] at hsource
        cases hsource
  · intro hagree p
    rw [hagree]

/-- Without an image, the sections are read from the file of the container. -/
theorem store_file (hsource : (sourceOf c.store).isOverride = false) :
    ∀ store, c.store = some store → store.file = file := by
  have hfound := storeFound h.store_read
  generalize c.store = found at hfound hsource
  rintro store rfl
  cases hfound with
  | image _ hread =>
    have himage : sourceOf (some store) = .override image := imageStore_source hread
    rw [himage] at hsource
    cases hsource
  | embedded => rfl

end Gathered

theorem readRegion_infix {start length : UInt64} {what : String} {bytes : Bytes}
    (h : readRegion now file start length what = .ok bytes) :
    bytes.toList <:+: now.bytesBehind file := by
  unfold readRegion at h
  dsimp only at h
  split at h
  · cases h
  · rw [mapError_eq_ok] at h
    by_cases hempty : length.toNat = 0
    · rw [hempty] at h
      cases h
      exact List.nil_infix
    · have hpos := Nat.pos_of_ne_zero hempty
      by_cases hread : now.Readable file start.toNat length.toNat
      · obtain ⟨found, hfound, hlist⟩ := FileSystem.readExactly_of_readable hpos hread
        cases hfound.symm.trans h
        rw [hlist]
        exact (List.take_prefix _ _).isInfix.trans (List.drop_suffix _ _).isInfix
      · rw [FileSystem.readExactly_of_not_readable hpos hread] at h
        cases h

theorem storedAnswer_takenFrom {name : String} {bytes : Bytes}
    (hfile : ∀ store, c.store = some store → store.file = file)
    (h : storedAnswer now c name = .ok bytes) : TakenFrom (now.bytesBehind file) name bytes := by
  unfold storedAnswer at h
  cases hstore : c.store? with
  | none =>
    rw [hstore] at h
    cases h
  | some store =>
    rw [hstore] at h
    dsimp only at h
    cases hslot : store.table.position? name with
    | none =>
      rw [hslot] at h
      cases h
    | some index =>
      rw [hslot, hfile store (store_of_store? hstore)] at h
      dsimp only at h
      obtain ⟨piece, hpiece, hbytes⟩ := bind_eq_ok.mp h
      refine ⟨piece.toList, readRegion_infix hpiece, ?_⟩
      rw [Array.toArray_toList]
      by_cases hcode : (name = codeSection && c.isCompressed) = true
      · rw [if_pos hcode, mapError_eq_ok] at hbytes
        rw [Bool.and_eq_true, decide_eq_true_eq] at hcode
        exact Or.inr ⟨hcode.1, hbytes⟩
      · rw [if_neg hcode] at hbytes
        cases hbytes
        exact Or.inl rfl

/-- A container that names no override file, and is right about its ExeFS, reads from its own file. -/
theorem ownReads_of_untainted (h : Gathered fs image file header s.container)
    (hagree : s.container.overrides.exefs = sourceOf s.container.store)
    (htaint : s.container.isTainted = false) : OwnReads s := by
  have hready := h.ready
  simp only [isTainted, OverrideSet.isTainted, Bool.or_eq_false_iff, Bool.not_eq_false',
    List.isEmpty_iff] at htaint
  obtain ⟨⟨hexefs, hromfs⟩, hsections⟩ := htaint
  have hstore := h.store_file (hagree ▸ hexefs)
  have hoverride (now : FileSystem) (name : String) :
      ∃ e, overrideAnswer now s.container name = .error e := by
    unfold overrideAnswer OverrideSet.section?
    rw [hsections]
    split
    · exact ⟨_, rfl⟩
    · exact ⟨_, rfl⟩
  have hembedded : s.container.overrides.romfs = .embedded := by
    cases hsource : s.container.overrides.romfs with
    | embedded => rfl
    | override p =>
      rw [hsource] at hromfs
      cases hromfs
  have hrange (now : FileSystem) :
      overrideRomfsAnswer now s.container = .error (.notUsed "RomFS override") := by
    rw [overrideRomfsAnswer, hembedded]
  constructor
  · intro now name bytes hrun
    rw [hready.outcome_run, answer] at hrun
    refine ⟨file, h.file_eq, ?_⟩
    obtain ⟨e, he⟩ := hoverride now name
    cases hsection : sectionAnswer now s.container file name with
    | error e =>
      rw [hsection] at hrun
      cases hrun
    | ok found =>
      rw [hsection] at hrun
      cases hrun
      unfold sectionAnswer at hsection
      rw [he] at hsection
      dsimp only at hsection
      cases hregion : s.container.regionOf? name with
      | some region =>
        rw [hregion] at hsection
        exact ⟨bytes.toList, readRegion_infix hsection, Or.inl (Array.toArray_toList).symm⟩
      | none =>
        rw [hregion] at hsection
        exact storedAnswer_takenFrom hstore hsection
  · intro now range hrun
    rw [hready.outcome_run, answer, romfsAnswer, hrange, embeddedRomfsAnswer] at hrun
    dsimp only at hrun
    split at hrun
    · cases hrun
      exact ⟨h.file_eq, rfl⟩
    · cases hrun
  · intro now name answer hrun
    obtain ⟨e, he⟩ := hoverride now name
    rw [hready.outcome_run, Container.answer, he] at hrun
    cases hrun
  · intro now answer hrun
    rw [hready.outcome_run, Container.answer, hrange] at hrun
    cases hrun

theorem truthful_iff (h : Gathered fs image file header s.container) :
    Truthful fs s ↔ s.container.overrides.exefs = sourceOf s.container.store :=
  ⟨fun htrue => h.recorded_iff.mp htrue.recorded,
    fun hagree => ⟨h.recorded_iff.mpr hagree, ownReads_of_untainted h hagree⟩⟩

/-! ## What later operations do to the record -/

/-- An operation changes nothing of a loaded container but the override files that it knows and
the names it knows them by. -/
theorem Ready.run_eq (h : Ready s.container file) (now : FileSystem) (op : Operation) :
    ∃ overrides naming, (s.run now op).2.container =
      { s.container with overrides := overrides, naming := naming } ∧
      (overrides = s.container.overrides ∨
        op = .findOverrides ∧
          overrides = .resolve now s.container.path s.container.naming) := by
  have hnext : (s.run now op).2.container = next now s.container op :=
    (perform_ready h now op).container_eq
  rw [hnext]
  cases op with
  | findOverrides => exact ⟨_, s.container.naming, rfl, Or.inr ⟨rfl, rfl⟩⟩
  | useNaming naming => exact ⟨_, naming, rfl, Or.inl rfl⟩
  | _ => exact ⟨_, s.container.naming, rfl, Or.inl rfl⟩

theorem Ready.run (h : Ready s.container file) (now : FileSystem) (op : Operation) :
    Ready (s.run now op).2.container file := by
  obtain ⟨overrides, naming, hnext, -⟩ := h.run_eq now op
  rw [hnext]
  exact ⟨h.stage_eq, h.file_eq⟩

theorem Ready.runAll_eq (h : Ready s.container file) (history : List (FileSystem × Operation)) :
    ∃ overrides naming, (s.runAll history).container =
      { s.container with overrides := overrides, naming := naming } := by
  induction history generalizing s with
  | nil => exact ⟨_, _, rfl⟩
  | cons step rest ih =>
    obtain ⟨now, op⟩ := step
    obtain ⟨overrides, naming, hnext, -⟩ := h.run_eq now op
    obtain ⟨found, names, hrest⟩ := ih (h.run now op)
    rw [runAll_cons, hrest, hnext]
    exact ⟨found, names, rfl⟩

/-- The record goes on to agree with the ExeFS in use if every search finds just that. -/
theorem agrees_runAll (h : Ready s.container file)
    (hagree : s.container.overrides.exefs = sourceOf s.container.store)
    (history : List (FileSystem × Operation))
    (hfound : ∀ reached now, reached ++ [(now, .findOverrides)] <+: history →
      (OverrideSet.resolve now s.container.path (s.runAll reached).container.naming).exefs =
        sourceOf s.container.store) :
    (s.runAll history).container.overrides.exefs = sourceOf s.container.store := by
  induction history generalizing s with
  | nil => exact hagree
  | cons step rest ih =>
    obtain ⟨now, op⟩ := step
    obtain ⟨overrides, naming, hnext, hcase⟩ := h.run_eq now op
    have hstore : (s.run now op).2.container.store = s.container.store := by rw [hnext]
    have hpath : (s.run now op).2.container.path = s.container.path := by rw [hnext]
    rw [runAll_cons, ← hstore]
    refine ih (h.run now op) ?_ fun reached later hwithin => ?_
    · rw [hstore, hnext]
      rcases hcase with rfl | ⟨rfl, rfl⟩
      · exact hagree
      · exact hfound [] now (List.prefix_append _ rest)
    · rw [hstore, hpath]
      exact hfound ((now, op) :: reached) later (List.cons_prefix_cons.mpr ⟨rfl, hwithin⟩)

/-- Throughout what is done with a container after it was loaded, what it says of its data is true
exactly if every search for override files finds the image that is in use, or none if none is. -/
theorem truthful_runAll_iff (path : Path) (offset : UInt64) (naming : Naming)
    (before : List (FileSystem × Operation)) (fs : FileSystem) (op : Operation)
    (after : List (FileSystem × Operation))
    (hbefore : ((Session.begin path offset naming).runAll before).container.stage ≠ .loaded)
    (hloaded : (((Session.begin path offset naming).runAll before).run fs op).2.container.stage =
      .loaded) :
    let loaded := (((Session.begin path offset naming).runAll before).run fs op).2
    (∀ reached, reached <+: after → Truthful fs (loaded.runAll reached)) ↔
    ∀ reached now, reached ++ [(now, .findOverrides)] <+: after →
      (OverrideSet.resolve now path (loaded.runAll reached).container.naming).exefs =
        sourceOf loaded.container.store := by
  intro loaded
  have hstarted := wellFormed_runAll path offset naming before
  have hpath : loaded.container.path = path :=
    (keeps_runAll (fun _ => lasting_wellFormed) (fun _ => openFile_wellFormed) [(fs, op)]
      hstarted).path_eq
  obtain ⟨file, header, hparts, -⟩ := loadedOn_run hstarted hbefore hloaded
  have hready : Ready loaded.container file := hparts.toGathered.ready
  have hagree : loaded.container.overrides.exefs = sourceOf loaded.container.store := by
    rw [hparts.recorded]
  have htrue (reached : List (FileSystem × Operation)) :
      Truthful fs (loaded.runAll reached) ↔
        (loaded.runAll reached).container.overrides.exefs = sourceOf loaded.container.store := by
    obtain ⟨overrides, names, hsame⟩ := hready.runAll_eq reached
    rw [truthful_iff (gathered_runAll reached hparts.toGathered), hsame]
  simp only [htrue]
  constructor
  · intro hall reached now hwithin
    rw [← hall _ hwithin, runAll_append, ← hpath]
    obtain ⟨overrides, names, hsame⟩ := hready.runAll_eq reached
    have hthere := (gathered_runAll reached hparts.toGathered).ready
    have hsearch : ((loaded.runAll reached).run now .findOverrides).2.container = _ :=
      (perform_ready hthere now .findOverrides).container_eq
    rw [runAll_cons, runAll_nil, hsearch, next, hsame]
  · intro hfound reached hreached
    refine agrees_runAll hready hagree reached fun earlier now hwithin => ?_
    rw [hpath]
    exact hfound earlier now (hwithin.trans hreached)

/-! ## An image that is forgotten -/

/-- A container that was loaded with an image next to it. -/
def loadedImage : Session := (Session.begin ⟨"game.cxi"⟩ 0 .standard).runAll [(withImage, .load)]

/-- The image is gone. -/
def withoutImage : FileSystem := { withImage with entries := [(["game.cxi"], .file 0)] }

theorem loadedImage_eq :
    loadedImage = ((Session.begin ⟨"game.cxi"⟩ 0 .standard).run withImage .load).2 := by
  rw [loadedImage, runAll_cons, runAll_nil]

theorem stage_loadedImage : loadedImage.container.stage = .loaded := by
  rw [loadedImage_eq]
  exact loaded_of_requirements (by decide +kernel)

theorem loadedOn_loadedImage :
    ∃ header, LoadedOn withImage (.file 0) header loadedImage.container ∧
      loadedImage.container.path = ⟨"game.cxi"⟩ ∧ loadedImage.container.offset = 0 ∧
      loadedImage.container.naming = .standard := by
  have hstage := stage_loadedImage
  rw [loadedImage_eq] at hstage ⊢
  have hstart := wellFormed_runAll ⟨"game.cxi"⟩ 0 .standard []
  rw [runAll_nil] at hstart
  have hformed := keeps_runAll (fun _ => lasting_wellFormed) (fun _ => openFile_wellFormed)
    [(withImage, .load)] hstart
  rw [runAll_cons, runAll_nil] at hformed
  obtain ⟨file, header, hparts, hnaming, hopened⟩ := loadedOn_run hstart nofun hstage
  have hfile : (openResult withImage (Session.begin ⟨"game.cxi"⟩ 0 .standard).container).1.toOption =
      some (.file 0) := by decide +kernel
  rw [hopened] at hfile
  cases hfile
  exact ⟨header, hparts, hformed.path_eq, hformed.offset_eq, hnaming⟩

theorem source_loadedImage :
    sourceOf loadedImage.container.store = .override ⟨"game.cxi.exefs"⟩ := by
  obtain ⟨header, hparts, hpath, -, hnaming⟩ := loadedOn_loadedImage
  have husable : UsableImage withImage (Path.withSuffix ⟨"game.cxi"⟩ Naming.standard.imageSuffix) := by
    decide +kernel
  rw [hparts.toGathered.source_eq, hpath, hnaming, if_pos husable]
  rfl

/-- The image is there when it is looked for again. What becomes of it later does not matter. -/
theorem truthful_runAll_image :
    loadedImage.container.stage = .loaded ∧ ∀ now reached,
      reached <+: [(withImage, .findOverrides), (now, .readSection "icon")] →
        Truthful withImage (loadedImage.runAll reached) := by
  refine ⟨stage_loadedImage, fun now => ?_⟩
  have hiff := truthful_runAll_iff ⟨"game.cxi"⟩ 0 .standard [] withImage .load
    [(withImage, .findOverrides), (now, .readSection "icon")] nofun
  rw [runAll_nil, ← loadedImage_eq] at hiff
  refine (hiff stage_loadedImage).mpr fun reached later hwithin => ?_
  cases reached with
  | nil =>
    obtain ⟨hstep, -⟩ := List.cons_prefix_cons.mp hwithin
    cases hstep
    obtain ⟨_, _, _, _, hnaming⟩ := loadedOn_loadedImage
    have hfound : (OverrideSet.resolve withImage ⟨"game.cxi"⟩ .standard).exefs =
        .override ⟨"game.cxi.exefs"⟩ := by decide +kernel
    rw [runAll_nil, hnaming, source_loadedImage, hfound]
  | cons first rest =>
    have hrest := (List.cons_prefix_cons.mp hwithin).2
    have hsearch := List.IsPrefix.mem (List.mem_append_right rest List.mem_cons_self) hrest
    simp at hsearch

section

variable {loaded : Session} (hparts : LoadedOn withImage (.file 0) header loaded.container)
  (hpath : loaded.container.path = ⟨"game.cxi"⟩) (hnaming : loaded.container.naming = .standard)
include hparts hpath hnaming

/-- The search that no longer finds the image takes it out of the record, and nothing else. -/
theorem forget_image :
    (loaded.runAll [(withoutImage, .findOverrides)]).container =
      { loaded.container with overrides := .empty } := by
  have hfound : OverrideSet.resolve withoutImage loaded.container.path loaded.container.naming =
      .empty := by
    rw [hpath, hnaming]
    decide +kernel
  have hsearch : (loaded.run withoutImage .findOverrides).2.container = _ :=
    (perform_ready hparts.toGathered.ready withoutImage .findOverrides).container_eq
  rw [next, hfound] at hsearch
  exact hsearch

theorem untainted_of_forgotten :
    (loaded.runAll [(withoutImage, .findOverrides)]).container.isTainted = false := by
  rw [forget_image hparts hpath hnaming]
  rfl

theorem icon_of_forgotten (hoffset : loaded.container.offset = 0) :
    ((loaded.runAll [(withoutImage, .findOverrides)]).run withoutImage (.readSection "icon")).1 =
      .ok (.bytes (utf8 "IMAG").toArray) := by
  have hready : Ready (loaded.runAll [(withoutImage, .findOverrides)]).container (.file 0) := by
    rw [forget_image hparts hpath hnaming]
    exact ⟨hparts.stage_eq, hparts.file_eq⟩
  have hicon : (storedOutcome withImage (Path.withSuffix ⟨"game.cxi"⟩ Naming.standard.imageSuffix)
      (.file 0) (0 : UInt64).toNat "icon").toOption = some (utf8 "IMAG").toArray := by decide +kernel
  have hstored : storedAnswer withImage loaded.container "icon" = .ok (utf8 "IMAG").toArray := by
    rw [hparts.toGathered.storedAnswer_eq addressable_withImage "icon", hpath, hnaming, hoffset]
    exact eq_ok_of_toOption hicon
  have hsame : storedAnswer withoutImage { loaded.container with overrides := .empty } "icon" =
      storedAnswer withImage loaded.container "icon" := storedAnswer_congr (fun _ => rfl) _ _
  obtain ⟨e, he⟩ : ∃ e, overrideAnswer withoutImage { loaded.container with overrides := .empty }
      "icon" = .error e := by
    unfold overrideAnswer
    split
    · exact ⟨_, rfl⟩
    · exact ⟨_, rfl⟩
  have hregion : regionOf? { loaded.container with overrides := .empty } "icon" = none :=
    if_neg fun h => absurd h.1 (by decide)
  rw [hready.outcome_run, forget_image hparts hpath hnaming, answer, sectionAnswer, he, hregion]
  dsimp only
  rw [hsame, hstored]
  rfl

theorem not_truthful_of_forgotten :
    ¬Truthful withImage (loaded.runAll [(withoutImage, .findOverrides)]) := by
  have hgathered : Gathered withImage
      (loaded.container.path.withSuffix loaded.container.naming.imageSuffix) (.file 0) header
      (loaded.runAll [(withoutImage, .findOverrides)]).container := by
    rw [forget_image hparts hpath hnaming]
    exact hparts.toGathered.congr .empty loaded.container.naming
  have husable : UsableImage withImage
      (loaded.container.path.withSuffix loaded.container.naming.imageSuffix) := by
    rw [hpath, hnaming]
    decide +kernel
  rw [truthful_iff hgathered]
  intro hagree
  have himage := hgathered.usesImage_iff.mpr husable
  rw [← hagree, forget_image hparts hpath hnaming] at himage
  cases himage

end

/-- If the image is looked for again when it is gone, it is no longer recorded. The icon still comes
from it. -/
theorem image_forgotten :
    let s := loadedImage.runAll [(withoutImage, .findOverrides)]
    loadedImage.container.stage = .loaded ∧ s.container.isTainted = false ∧
      (s.run withoutImage (.readSection "icon")).1 = .ok (.bytes (utf8 "IMAG").toArray) ∧
      ¬utf8 "IMAG" <:+: withoutImage.bytesBehind (.file 0) ∧ ¬Truthful withImage s := by
  obtain ⟨header, hparts, hpath, hoffset, hnaming⟩ := loadedOn_loadedImage
  exact ⟨stage_loadedImage, untainted_of_forgotten hparts hpath hnaming,
    icon_of_forgotten hparts hpath hnaming hoffset, by decide +kernel,
    not_truthful_of_forgotten hparts hpath hnaming⟩

end Container
end Cartridge
