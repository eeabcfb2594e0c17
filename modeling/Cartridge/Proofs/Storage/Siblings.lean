import Cartridge.Proofs.Storage.OneFile
import Cartridge.Proofs.Storage.Overwriting

/-!
# Paths next to a file and in a directory

The path of a file with a suffix leads to another entry of the same directory, and a walk to that one
comes through where the walk to the file does. The directory of an entry that opens can be opened.
-/
namespace Cartridge

namespace Path

/-- The last name of a path that does not end in a slash takes every suffix. -/
theorem exists_last_name {p : Path} (hne : p.text ≠ "") (hslash : ¬p.endsInSlash = true) :
    ∃ before last, p.names = before ++ [last] ∧
      ∀ suffix : String, '/' ∉ suffix.toList →
        (p.withSuffix suffix).names = before ++ [last ++ suffix] := by
  have hsuffixed {last suffix : String} (hlast : last ≠ "") (hplain : '/' ∉ last.toList)
      (h : '/' ∉ suffix.toList) : names ⟨last ++ suffix⟩ = [last ++ suffix] := by
    apply names_of_no_slash
    · simp [hlast]
    · simp [hplain, h]
  by_cases hany : '/' ∈ p.text.toList
  · obtain ⟨before, last, htext, hplain⟩ := exists_last_slash hany
    have hlast : last ≠ "" := by
      rintro rfl
      apply hslash
      simp [endsInSlash, htext]
    refine ⟨names ⟨before⟩, last, ?_, fun suffix h => ?_⟩
    · rw [← names_of_no_slash hlast hplain, ← names_append, ← htext]
    · rw [← hsuffixed hlast hplain h, ← names_append, withSuffix, htext, String.append_assoc]
  · exact ⟨[], p.text, names_of_no_slash hne hany, fun suffix h => hsuffixed hne hany h⟩

end Path

namespace FileSystem

variable {fs now : FileSystem} {p base : Path} {place found names more : List String}
  {handle : Handle} {written : List Path} {own number : Nat} {suffix name : String}

theorem checkPath_eq_ok : checkPath p = .ok () ↔
    '\x00' ∉ p.text.toList ∧ p.text ≠ "" ∧ (utf8 p.text).length < maxPath := by
  unfold checkPath
  by_cases hnul : '\x00' ∈ p.text.toList
  · simp [hnul]
  · by_cases hempty : p.text = ""
    · simp [hempty]
    · by_cases hlong : maxPath ≤ (utf8 p.text).length
      · simp [hnul, hempty, hlong]
      · simp [hnul, hempty, hlong, Nat.not_le.mp hlong]

/-- The first part of a walk ends in a directory, if there is more to come. -/
theorem descend_of_append (hmore : more ≠ [])
    (h : fs.descend place (names ++ more) = .ok (found, handle)) :
    fs.descend place names = .ok (names.foldl step place, .directory) := by
  induction names generalizing place with
  | nil =>
    obtain ⟨name, rest, rfl⟩ := List.exists_cons_of_ne_nil hmore
    exact descend_nil (directory_of_descend_cons h)
  | cons name rest ih =>
    have hhere := directory_of_descend_cons h
    rw [List.cons_append, descend_cons hhere] at h
    rw [descend_cons hhere]
    by_cases hlong : name ≠ "." ∧ name ≠ ".." ∧ maxName < (utf8 name).length
    · rw [if_pos hlong] at h
      cases h
    · rw [if_neg hlong] at h ⊢
      exact ih h

/-! ## Next to a file -/

/-- Where a path with a suffix leads, if the path itself opens a file. -/
theorem exists_beside (h : fs.openHandle p = .ok (.file own)) :
    ∃ before above last, fs.descend (fs.origin p) before = .ok (above, .directory) ∧
      ∀ suffix : String, '/' ∉ suffix.toList → 2 < suffix.length →
        (p.withSuffix suffix).names = before ++ [last ++ suffix] ∧
        fs.origin (p.withSuffix suffix) = fs.origin p ∧
        fs.placeOf (p.withSuffix suffix) = above ++ [last ++ suffix] ∧
        step above (last ++ suffix) = above ++ [last ++ suffix] := by
  obtain ⟨hcheck, hwalk, hslash⟩ := openHandle_eq_ok.mp h
  have hne := text_ne_empty hcheck
  obtain ⟨before, last, hnames, hsuffixed⟩ :=
    Path.exists_last_name hne fun hends => nomatch hslash hends
  rw [hnames] at hwalk
  refine ⟨before, _, last, descend_of_append (List.cons_ne_nil _ _) hwalk,
    fun suffix hplain hlength => ?_⟩
  have horigin : fs.origin (p.withSuffix suffix) = fs.origin p := by
    rw [origin, origin, Path.isAbsolute_withSuffix hne]
  have hdots (dots : String) (hshort : dots.length ≤ 2) : last ++ suffix ≠ dots := by
    rintro rfl
    rw [String.length_append] at hshort
    omega
  have hstep (above : List String) : step above (last ++ suffix) = above ++ [last ++ suffix] := by
    rw [step, if_neg (hdots "." (by decide)), if_neg (hdots ".." (by decide))]
  refine ⟨hsuffixed suffix hplain, horigin, ?_, hstep _⟩
  rw [placeOf, horigin, hsuffixed suffix hplain, List.foldl_append, List.foldl_cons, List.foldl_nil,
    hstep]

/-- What is next to a file opened before as well, if it was there and it opens after files were
stored: the directory that it is in is not a new one. -/
theorem Stores.openHandle_beside (h : fs.Stores written now)
    (hopen : fs.openHandle p = .ok (.file own)) (hplain : '/' ∉ suffix.toList)
    (hlength : 2 < suffix.length) (hnow : now.openHandle (p.withSuffix suffix) = .ok handle)
    (hbefore : fs.handleAt? (fs.placeOf (p.withSuffix suffix)) = some handle) :
    fs.openHandle (p.withSuffix suffix) = .ok handle := by
  obtain ⟨before, above, last, hwalk, hbeside⟩ := exists_beside hopen
  obtain ⟨hnames, horigin, hplace, hstep⟩ := hbeside suffix hplain hlength
  obtain ⟨hcheck, hwalkNow, hslash⟩ := openHandle_eq_ok.mp hnow
  have habove := (descend_eq_ok hwalk).2
  rw [origin, h.start_eq, ← origin, horigin, hnames, descend_append (h.descend_of_ok hwalk),
    descend_cons (h.kept _ _ habove)] at hwalkNow
  apply openHandle_eq_ok.mpr
  refine ⟨hcheck, ?_, hslash⟩
  rw [horigin, hnames, descend_append hwalk, descend_cons habove, hstep, ← hplace]
  by_cases hlong : last ++ suffix ≠ "." ∧ last ++ suffix ≠ ".." ∧
      maxName < (utf8 (last ++ suffix)).length
  · rw [if_pos hlong] at hwalkNow
    cases hwalkNow
  · rw [if_neg hlong]
    exact descend_nil hbefore

/-! ## In a directory -/

theorem isDirectory_of_join (h : fs.openHandle (base.join name) = .ok handle)
    (hbase : base.text ≠ "") (hslash : '/' ∉ name.toList) (hname : name ≠ "") :
    fs.isDirectory base = true := by
  obtain ⟨hcheck, hwalk, -⟩ := openHandle_eq_ok.mp h
  obtain ⟨hnul, -, hshort⟩ := checkPath_eq_ok.mp hcheck
  obtain ⟨rest, htext⟩ : ∃ rest, (base.join name).text = base.text ++ rest := by
    rw [Path.join, Path.isAbsolute_eq_false hslash, if_neg Bool.false_ne_true]
    split
    · exact ⟨name, rfl⟩
    · exact ⟨"/" ++ name, String.append_assoc⟩
  have horigin : fs.origin (base.join name) = fs.origin base := by
    rw [origin, origin, Path.isAbsolute_join base hslash]
  rw [horigin, Path.names_join base hslash, Path.names_of_no_slash hname hslash] at hwalk
  rw [htext, String.toList_append, List.mem_append, not_or] at hnul
  rw [htext, utf8, String.toList_append, List.flatMap_append, List.length_append] at hshort
  apply isDirectory_iff.mpr
  apply openHandle_eq_ok.mpr
  refine ⟨checkPath_eq_ok.mpr ⟨hnul.1, hbase, ?_⟩,
    descend_of_append (List.cons_ne_nil _ _) hwalk, fun _ => rfl⟩
  exact Nat.lt_of_le_of_lt (Nat.le_add_right _ _) hshort

end FileSystem

end Cartridge
