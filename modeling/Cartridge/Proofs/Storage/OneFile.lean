import Cartridge.Proofs.Storage.Fronted
import Cartridge.Proofs.Storage.Places

/-!
# File systems that differ in one file

At one place each of two file systems has a file or nothing, and everywhere else they are the same.
A path that leads somewhere else then opens the same in both: whatever the place holds, no path gets
through it.
-/
namespace Cartridge

namespace Path

theorem length_names_of_no_slash {name : String} (h : '/' ∉ name.toList) :
    (names ⟨name⟩).length ≤ 1 := by
  by_cases hempty : name = ""
  · rw [hempty, names_of_empty]
    exact Nat.zero_le 1
  · rw [names_of_no_slash hempty h]
    exact Nat.le_refl 1

/-- What follows the last slash of a text that has one. -/
theorem exists_last_slash {text : String} (h : '/' ∈ text.toList) :
    ∃ before last : String, text = before ++ "/" ++ last ∧ '/' ∉ last.toList := by
  obtain ⟨after, before, hreverse, hafter⟩ :=
    List.eq_append_cons_of_mem (List.mem_reverse.mpr h)
  refine ⟨String.ofList before.reverse, String.ofList after.reverse, ?_, ?_⟩
  · rw [← String.toList_inj, ← List.reverse_inj, hreverse]
    simp
  · rw [String.toList_ofList, List.mem_reverse]
    exact hafter

/-- A suffix belongs to the last name: the names before it are those of the path itself. -/
theorem names_withSuffix (p : Path) (suffix : String) :
    ∃ before last more, p.names = before ++ last ∧ (p.withSuffix suffix).names = before ++ more ∧
      last.length ≤ 1 := by
  by_cases hslash : '/' ∈ p.text.toList
  · obtain ⟨before, last, htext, hlast⟩ := exists_last_slash hslash
    have hnames : p.names = names ⟨before⟩ ++ names ⟨last⟩ := by
      rw [← names_append, ← htext]
    have hmore : (p.withSuffix suffix).names = names ⟨before⟩ ++ names ⟨last ++ suffix⟩ := by
      rw [withSuffix, htext, String.append_assoc, names_append]
    exact ⟨_, _, _, hnames, hmore, length_names_of_no_slash hlast⟩
  · exact ⟨[], p.names, _, rfl, rfl, length_names_of_no_slash hslash⟩

theorem isAbsolute_withSuffix {p : Path} (h : p.text ≠ "") (suffix : String) :
    (p.withSuffix suffix).isAbsolute = p.isAbsolute := by
  obtain ⟨c, rest, hlist⟩ := List.exists_cons_of_ne_nil (mt String.toList_eq_nil_iff.mp h)
  rw [isAbsolute, isAbsolute, withSuffix, String.toList_append, hlist]
  rfl

end Path

namespace FileSystem

/-- The file systems differ at most in this place, where each has a file or nothing. What is behind
other entries is the same. -/
structure SameBeside (place : List String) (fs other : FileSystem) : Prop where
  start_eq : other.workingDirectory = fs.workingDirectory
  entries_eq : ∀ p, p ≠ place → other.handleAt? p = fs.handleAt? p
  no_directory : fs.handleAt? place ≠ some .directory
  no_directory_other : other.handleAt? place ≠ some .directory
  bytes_eq : ∀ p number, p ≠ place → fs.handleAt? p = some (.file number) →
    other.bytesOf number = fs.bytesOf number

/-- The path opens the same in both file systems, if it opens at all. -/
structure AlikeAt (fs other : FileSystem) (p : Path) : Prop where
  opens : ∀ file, other.openHandle p = .ok file ↔ fs.openHandle p = .ok file
  same : ∀ file, fs.openHandle p = .ok file → SameBehind fs other file

variable {fs other : FileSystem} {p : Path} {place start found : List String}
  {names : List String} {handle : Handle}

namespace AlikeAt

variable (h : AlikeAt fs other p)
include h

theorem cases :
    (∃ file, fs.openHandle p = .ok file ∧ other.openHandle p = .ok file) ∨
      ∃ fault fault', fs.openHandle p = .error fault ∧ other.openHandle p = .error fault' := by
  cases hhere : fs.openHandle p with
  | ok file => exact .inl ⟨file, rfl, (h.opens file).mpr hhere⟩
  | error fault =>
    cases hthere : other.openHandle p with
    | ok file =>
      rw [(h.opens file).mp hthere] at hhere
      cases hhere
    | error fault' => exact .inr ⟨fault, fault', rfl, rfl⟩

theorem isFile_eq : other.isFile p = fs.isFile p := by
  unfold isFile
  rcases h.cases with ⟨file, hhere, hthere⟩ | ⟨fault, fault', hhere, hthere⟩
  · rw [hhere, hthere]
  · rw [hhere, hthere]

theorem isDirectory_eq : other.isDirectory p = fs.isDirectory p := by
  unfold isDirectory
  rcases h.cases with ⟨file, hhere, hthere⟩ | ⟨fault, fault', hhere, hthere⟩
  · rw [hhere, hthere]
  · rw [hhere, hthere]

theorem wholeFile?_eq : other.wholeFile? p = fs.wholeFile? p := by
  unfold wholeFile?
  rcases h.cases with ⟨file, hhere, hthere⟩ | ⟨fault, fault', hhere, hthere⟩
  · rw [hhere, hthere]
    show (other.readAll file).toOption = (fs.readAll file).toOption
    rw [(h.same file hhere).readAll_eq]
  · rw [hhere, hthere]
    rfl

end AlikeAt

/-- A path opens the same where the walk along its names is the same. -/
theorem openHandle_congr_walk (h : checkPath p = .ok () →
    other.descend (other.origin p) p.names = fs.descend (fs.origin p) p.names) :
    other.openHandle p = fs.openHandle p := by
  unfold openHandle resolve
  cases hcheck : checkPath p with
  | error fault => rfl
  | ok _ => rw [h hcheck]

namespace SameBeside

variable (h : SameBeside place fs other)
include h

theorem placeOf_eq (p : Path) : other.placeOf p = fs.placeOf p := by
  rw [placeOf, placeOf, origin, origin, h.start_eq]

theorem ne_of_directory (hstart : fs.handleAt? start = some .directory) : start ≠ place := by
  rintro rfl
  exact h.no_directory hstart

theorem symm : SameBeside place other fs where
  start_eq := h.start_eq.symm
  entries_eq := fun p hp => (h.entries_eq p hp).symm
  no_directory := h.no_directory_other
  no_directory_other := h.no_directory
  bytes_eq := fun p number hp hfile =>
    (h.bytes_eq p number hp (by rw [← h.entries_eq p hp, hfile])).symm

theorem directory_eq (hhere : fs.handleAt? start = some .directory) :
    other.handleAt? start = some .directory := by
  rw [h.entries_eq start (h.ne_of_directory hhere), hhere]

/-- A walk that ends elsewhere does not come through the place, unless it fails. -/
theorem descend_of_ok (hend : found ≠ place)
    (hwalk : fs.descend start names = .ok (found, handle)) :
    other.descend start names = .ok (found, handle) := by
  induction names generalizing start with
  | nil =>
    obtain ⟨rfl, hhandle⟩ := descend_eq_ok hwalk
    exact descend_nil ((h.entries_eq _ hend).trans hhandle)
  | cons name rest ih =>
    have hhere := directory_of_descend_cons hwalk
    rw [descend_cons (h.directory_eq hhere)]
    rw [descend_cons hhere] at hwalk
    split at hwalk
    case isTrue => cases hwalk
    case isFalse hshort =>
      rw [if_neg hshort]
      exact ih hwalk

theorem openHandle_of_ok (hp : fs.placeOf p ≠ place) (hopen : fs.openHandle p = .ok handle) :
    other.openHandle p = .ok handle := by
  obtain ⟨hcheck, hwalk, hslash⟩ := openHandle_eq_ok.mp hopen
  refine openHandle_eq_ok.mpr ⟨hcheck, ?_, hslash⟩
  rw [origin, h.start_eq, h.placeOf_eq]
  exact h.descend_of_ok hp hwalk

/-- A path that leads elsewhere opens the same, if it opens. -/
theorem alikeAt (hp : fs.placeOf p ≠ place) : AlikeAt fs other p where
  opens := fun _ =>
    ⟨h.symm.openHandle_of_ok (by rwa [h.placeOf_eq]), h.openHandle_of_ok hp⟩
  same := by
    rintro _ hopen number rfl
    exact h.bytes_eq _ number hp (handleAt?_of_openHandle hopen)

/-- Two walks that part at the last name of the second: where the first comes through, so does the
second, up to its end. -/
theorem descend_eq_of_shared {before last more : List String}
    (hwalk : fs.descend start (before ++ more) = .ok (found, .directory))
    (hlast : last.length ≤ 1) (hend : (before ++ last).foldl step start ≠ place) :
    other.descend start (before ++ last) = fs.descend start (before ++ last) := by
  have hhere : fs.handleAt? start = some .directory := directory_of_descend hwalk
  have hthere := h.directory_eq hhere
  induction before generalizing start with
  | nil =>
    match last with
    | [] => rw [List.append_nil, descend_nil hhere, descend_nil hthere]
    | [name] =>
      have hfinal : other.handleAt? (step start name) = fs.handleAt? (step start name) :=
        h.entries_eq _ hend
      rw [List.nil_append, descend_cons hhere, descend_cons hthere, descend, descend, hfinal]
  | cons name rest ih =>
    rw [List.cons_append] at hwalk ⊢
    rw [descend_cons hhere, descend_cons hthere]
    rw [descend_cons hhere] at hwalk
    split at hwalk
    case isTrue => cases hwalk
    case isFalse hshort =>
      rw [if_neg hshort, if_neg hshort]
      have hnext := directory_of_descend hwalk
      exact ih hwalk hend hnext (h.directory_eq hnext)

/-- A path opens the same if it leads elsewhere and if with some suffix it leads to a directory. -/
theorem sameAt_of_directory {suffix : String}
    (hdirectory : fs.isDirectory (p.withSuffix suffix) = true) (hp : fs.placeOf p ≠ place) :
    SameAt fs other p where
  opens := by
    refine openHandle_congr_walk fun hcheck => ?_
    obtain ⟨-, hwalk, -⟩ := openHandle_eq_ok.mp (isDirectory_iff.mp hdirectory)
    obtain ⟨before, last, more, hnames, hmore, hlast⟩ := p.names_withSuffix suffix
    have horigin : fs.origin (p.withSuffix suffix) = fs.origin p := by
      rw [origin, origin, Path.isAbsolute_withSuffix (text_ne_empty hcheck)]
    rw [horigin, hmore] at hwalk
    rw [placeOf, hnames] at hp
    rw [origin, h.start_eq, hnames]
    exact h.descend_eq_of_shared hwalk hlast hp
  same := (h.alikeAt hp).same

end SameBeside

end FileSystem

end Cartridge
