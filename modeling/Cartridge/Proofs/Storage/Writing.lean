import Cartridge.Proofs.Storage.Places
import Cartridge.Storage.Access

/-!
# What is written

A change of the files is told by the paths at which it stores files. No file is new or changed but
at their places, and nothing that was there is taken away; directories may be new anywhere.
-/
namespace Cartridge.FileSystem

variable {fs middle now : FileSystem} {p : Path} {place : List String} {handle : Handle}
  {number : Nat} {written more : List Path} {bytes : Bytes}

/-- Files are stored at these paths, each of which then leads to a file. -/
structure Stores (written : List Path) (fs now : FileSystem) : Prop where
  start_eq : now.workingDirectory = fs.workingDirectory
  kept : ∀ place handle, fs.handleAt? place = some handle → now.handleAt? place = some handle
  stored : ∀ p ∈ written, ∃ number, now.handleAt? (fs.placeOf p) = some (.file number)
  created : ∀ place number, now.handleAt? place = some (.file number) →
    fs.handleAt? place = some (.file number) ∨ ∃ p ∈ written, fs.placeOf p = place
  changed : ∀ number, now.bytesOf number ≠ fs.bytesOf number →
    ∃ p ∈ written, now.handleAt? (fs.placeOf p) = some (.file number)

theorem placeOf_congr (h : now.workingDirectory = fs.workingDirectory) (p : Path) :
    now.placeOf p = fs.placeOf p := by
  rw [placeOf, placeOf, origin, origin, h]

theorem lookup_filter_ne {α β : Type} [BEq α] [LawfulBEq α] {a b : α} (h : a ≠ b)
    (l : List (α × β)) : (l.filter (·.1 != b)).lookup a = l.lookup a := by
  induction l with
  | nil => rfl
  | cons entry rest ih =>
    by_cases hkey : entry.1 = b
    · rw [List.filter_cons_of_neg (by simpa using hkey), ih, List.lookup_cons,
        beq_eq_false_iff_ne.mpr (hkey ▸ h)]
    · rw [List.filter_cons_of_pos (by simpa using hkey), List.lookup_cons, List.lookup_cons, ih]

theorem handleAt?_insert (hplace : place ≠ []) (other : List String) :
    (fs.insert place handle).handleAt? other =
      if other = place then some handle else fs.handleAt? other := by
  unfold handleAt? insert
  by_cases hroot : other = []
  · rw [if_pos hroot, if_pos hroot, if_neg (hroot ▸ hplace.symm)]
  · rw [if_neg hroot, if_neg hroot, List.lookup_cons]
    by_cases hsame : other = place
    · rw [if_pos hsame, beq_iff_eq.mpr hsame]
    · rw [if_neg hsame, beq_eq_false_iff_ne.mpr hsame]
      dsimp only
      exact lookup_filter_ne hsame fs.entries

theorem bytesOf_setBytes_of_ne {other : Nat} (h : other ≠ number) :
    (fs.setBytes number bytes).bytesOf other = fs.bytesOf other := by
  rw [bytesOf, bytesOf, setBytes, Array.getD_eq_getD_getElem?, Array.getD_eq_getD_getElem?,
    Array.getElem?_setIfInBounds_ne h.symm]

/-- A file that is given out anew reads as it did before, when it had no bytes either. -/
theorem getD_push_empty (other : Nat) :
    (fs.contents.push #[]).getD other #[] = fs.bytesOf other := by
  rw [bytesOf, Array.getD_eq_getD_getElem?, Array.getD_eq_getD_getElem?, Array.getElem?_push]
  by_cases hend : other = fs.contents.size
  · rw [if_pos hend, hend, Array.getElem?_size]
    rfl
  · rw [if_neg hend]

namespace Stores

theorem refl (fs : FileSystem) : fs.Stores [] fs where
  start_eq := rfl
  kept := fun _ _ h => h
  stored := nofun
  created := fun _ _ h => .inl h
  changed := fun _ h => absurd rfl h

theorem trans (first : fs.Stores written middle) (second : middle.Stores more now) :
    fs.Stores (written ++ more) now := by
  have hplaces := placeOf_congr first.start_eq
  constructor
  · rw [second.start_eq, first.start_eq]
  · intro place handle h
    exact second.kept _ _ (first.kept _ _ h)
  · intro p hp
    rcases List.mem_append.mp hp with hp | hp
    · obtain ⟨number, hfile⟩ := first.stored p hp
      exact ⟨number, second.kept _ _ hfile⟩
    · rw [← hplaces]
      exact second.stored p hp
  · intro place number h
    rcases second.created place number h with hmiddle | ⟨p, hp, hplace⟩
    · rcases first.created place number hmiddle with hbefore | ⟨p, hp, hplace⟩
      · exact .inl hbefore
      · exact .inr ⟨p, List.mem_append_left _ hp, hplace⟩
    · exact .inr ⟨p, List.mem_append_right _ hp, by rw [← hplaces, hplace]⟩
  · intro number h
    by_cases hmiddle : middle.bytesOf number = fs.bytesOf number
    · rw [← hmiddle] at h
      obtain ⟨p, hp, hfile⟩ := second.changed number h
      exact ⟨p, List.mem_append_right _ hp, by rw [← hplaces, hfile]⟩
    · obtain ⟨p, hp, hfile⟩ := first.changed number hmiddle
      exact ⟨p, List.mem_append_left _ hp, second.kept _ _ hfile⟩

/-- A file that is there is stored where it is. -/
theorem of_file (h : fs.handleAt? (fs.placeOf p) = some (.file number)) : fs.Stores [p] fs where
  start_eq := rfl
  kept := fun _ _ h => h
  stored := fun q hq => ⟨number, by rw [List.mem_singleton.mp hq, h]⟩
  created := fun _ _ h => .inl h
  changed := fun _ h => absurd rfl h

theorem setBytes (h : fs.Stores written now) (hp : p ∈ written)
    (hfile : now.handleAt? (fs.placeOf p) = some (.file number)) (bytes : Bytes) :
    fs.Stores written (now.setBytes number bytes) where
  start_eq := h.start_eq
  kept := h.kept
  stored := h.stored
  created := h.created
  changed := by
    intro other hchanged
    by_cases hother : other = number
    · rw [hother]
      exact ⟨p, hp, hfile⟩
    · rw [bytesOf_setBytes_of_ne hother] at hchanged
      exact h.changed other hchanged

/-- A new entry where none was. It is stored if it is a file. -/
theorem of_insert (hplace : place ≠ []) (hnew : fs.handleAt? place = none)
    (hstart : now.workingDirectory = fs.workingDirectory)
    (hentries : now.entries = (fs.insert place handle).entries)
    (hbytes : ∀ number, now.bytesOf number = fs.bytesOf number)
    (hwritten : ∀ p ∈ written, fs.placeOf p = place ∧ ∃ number, handle = .file number)
    (hfile : ∀ number, handle = .file number → ∃ p ∈ written, fs.placeOf p = place) :
    fs.Stores written now := by
  have hnow (other : List String) : now.handleAt? other =
      if other = place then some handle else fs.handleAt? other := by
    rw [handleAt?_congr hentries, handleAt?_insert hplace]
  constructor
  · exact hstart
  · intro other held h
    have hother : other ≠ place := by
      rintro rfl
      rw [hnew] at h
      cases h
    rw [hnow, if_neg hother, h]
  · intro p hp
    obtain ⟨hp, number, hnumber⟩ := hwritten p hp
    exact ⟨number, by rw [hnow, if_pos hp, hnumber]⟩
  · intro other number h
    rw [hnow] at h
    by_cases hother : other = place
    · rw [if_pos hother] at h
      obtain ⟨p, hp, hplace⟩ := hfile number (Option.some.inj h)
      exact .inr ⟨p, hp, by rw [hplace, hother]⟩
    · rw [if_neg hother] at h
      exact .inl h
  · intro number h
    exact absurd (hbytes number) h

/-- Where no file is stored, all files read as before. -/
theorem bytesOf_eq (h : fs.Stores [] now) (number : Nat) : now.bytesOf number = fs.bytesOf number :=
  Decidable.byContradiction fun hchanged => by
    obtain ⟨_, hmem, -⟩ := h.changed number hchanged
    cases hmem

end Stores

/-! ## What the operations store -/

/-- A file that is made or opened for writing is at the place of its path. -/
theorem stores_create (h : fs.create p = .ok (number, now)) :
    fs.Stores [p] now ∧ now.handleAt? (fs.placeOf p) = some (.file number) := by
  obtain ⟨⟨above, last⟩, hentry, h⟩ := bind_eq_ok.mp h
  cases last with
  | none => cases h
  | some name =>
    have hplace := newEntry_eq_ok hentry
    dsimp only at h
    rw [hplace] at h
    split at h
    · cases h
    · split at h
      · cases h
      · cases hthere : fs.handleAt? (fs.placeOf p) with
        | none =>
          rw [hthere] at h
          cases h
          have hroot : fs.placeOf p ≠ [] := by
            rw [← hplace]
            exact List.concat_ne_nil _ _
          refine ⟨.of_insert hroot hthere rfl rfl getD_push_empty ?_ ?_, ?_⟩
          · intro q hq
            exact ⟨by rw [List.mem_singleton.mp hq], _, rfl⟩
          · intro _ _
            exact ⟨p, List.mem_singleton_self p, rfl⟩
          · exact (handleAt?_insert hroot _).trans (if_pos rfl)
        | some handle =>
          rw [hthere] at h
          cases handle with
          | directory => cases h
          | file number =>
            cases h
            exact ⟨(Stores.of_file hthere).setBytes (List.mem_singleton_self p) hthere _, hthere⟩

theorem stores_store (h : fs.store p bytes = .ok now) : fs.Stores [p] now := by
  obtain ⟨⟨number, created⟩, hcreate, h⟩ := bind_eq_ok.mp (mapError_eq_ok.mp h)
  cases h
  obtain ⟨hstores, hfile⟩ := stores_create hcreate
  exact hstores.setBytes (List.mem_singleton_self p) hfile bytes

theorem stores_makeDirectory (h : fs.makeDirectory p = .ok now) : fs.Stores [] now := by
  obtain ⟨⟨above, last⟩, -, h⟩ := bind_eq_ok.mp h
  cases last with
  | none => cases h
  | some name =>
    dsimp only at h
    split at h
    · cases h
    · cases hthere : fs.handleAt? (above ++ [name]) with
      | some handle =>
        rw [hthere] at h
        cases h
      | none =>
        rw [hthere] at h
        cases h
        exact .of_insert (List.concat_ne_nil _ _) hthere rfl rfl (fun _ => rfl) nofun nofun

/-- Making directories stores no file, however many of them are missing. -/
theorem stores_makeDirectoriesUpTo {count : Nat} (h : makeDirectoriesUpTo count fs p = .ok now) :
    fs.Stores [] now := by
  induction count generalizing p now with
  | zero => cases h
  | succ count ih =>
    unfold makeDirectoriesUpTo at h
    split at h
    · cases h
      exact .refl fs
    · split at h
      case h_1 made hmade =>
        cases h
        exact stores_makeDirectory hmade
      case h_2 =>
        -- The directory above is missing: what is made for it comes first.
        dsimp only at h
        split at h
        case h_1 parent =>
          obtain ⟨above, habove, h⟩ := bind_eq_ok.mp h
          have hfirst : fs.Stores [] above := ih habove
          split at h
          case h_1 made hmade =>
            cases h
            exact hfirst.trans (stores_makeDirectory hmade)
          case h_2 =>
            rw [← eq_of_ite_ok h]
            exact hfirst
        case h_2 => cases h
      case h_3 =>
        rw [← eq_of_ite_ok h]
        exact .refl fs

theorem stores_makeDirectories (h : fs.makeDirectories p = .ok now) : fs.Stores [] now :=
  stores_makeDirectoriesUpTo h

end Cartridge.FileSystem
