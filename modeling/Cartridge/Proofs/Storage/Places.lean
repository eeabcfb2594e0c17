import Cartridge.Proofs.Outcome
import Cartridge.Storage.FileSystem

/-!
# Where paths lead

The names of a path say at which place it leads, whatever is there: a name goes down, two dots go up
and one stays. What can be opened is at that place, and so is what a path makes.
-/
namespace Cartridge

namespace FileSystem

variable {fs now : FileSystem} {p : Path} {place found : List String} {names : List String}
  {handle : Handle}

/-- The place that one name leads to from another. -/
def step (place : List String) (name : String) : List String :=
  if name = "." then place else if name = ".." then place.dropLast else place ++ [name]

/-- The place that a path leads to. -/
def placeOf (fs : FileSystem) (p : Path) : List String := p.names.foldl step (fs.origin p)

/-! ## Walking -/

theorem handleAt?_congr (h : now.entries = fs.entries) (place : List String) :
    now.handleAt? place = fs.handleAt? place := by
  rw [handleAt?, handleAt?, h]

theorem descend_congr (h : now.entries = fs.entries) (place names : List String) :
    now.descend place names = fs.descend place names := by
  induction names generalizing place with
  | nil => rw [descend, descend, handleAt?_congr h]
  | cons name rest ih => rw [descend, descend, handleAt?_congr h, ih, ih, ih]

theorem openHandle_congr (h : now.entries = fs.entries)
    (hstart : now.workingDirectory = fs.workingDirectory) (p : Path) :
    now.openHandle p = fs.openHandle p := by
  rw [openHandle, openHandle, resolve, resolve, origin, origin, hstart, descend_congr h]

/-- A walk ends at the place that its names lead to, with what is there. -/
theorem descend_eq_ok (h : fs.descend place names = .ok (found, handle)) :
    found = names.foldl step place ∧ fs.handleAt? found = some handle := by
  induction names generalizing place with
  | nil =>
    unfold descend at h
    cases hhandle : fs.handleAt? place with
    | none =>
      rw [hhandle] at h
      cases h
    | some there =>
      rw [hhandle] at h
      cases h
      exact ⟨rfl, hhandle⟩
  | cons name rest ih =>
    rw [List.foldl_cons]
    unfold descend at h
    cases hhandle : fs.handleAt? place with
    | none =>
      rw [hhandle] at h
      cases h
    | some there =>
      rw [hhandle] at h
      cases there with
      | file number => cases h
      | directory =>
        dsimp only at h
        unfold step
        by_cases hhere : name = "."
        · rw [if_pos hhere] at h ⊢
          exact ih h
        · by_cases habove : name = ".."
          · rw [if_neg hhere, if_pos habove] at h
            rw [if_neg hhere, if_pos habove]
            exact ih h
          · rw [if_neg hhere, if_neg habove] at h
            rw [if_neg hhere, if_neg habove]
            by_cases hlong : maxName < (utf8 name).length
            · rw [if_pos hlong] at h
              cases h
            · rw [if_neg hlong] at h
              exact ih h

/-- A directory is walked through by any name but one that is too long. -/
theorem descend_cons {name : String} (h : fs.handleAt? place = some .directory) :
    fs.descend place (name :: names) =
      if name ≠ "." ∧ name ≠ ".." ∧ maxName < (utf8 name).length then .error .nameTooLong
      else fs.descend (step place name) names := by
  rw [descend, h]
  dsimp only
  unfold step
  by_cases hhere : name = "."
  · rw [if_pos hhere, if_pos hhere, if_neg fun hlong => hlong.1 hhere]
  · by_cases habove : name = ".."
    · rw [if_neg hhere, if_pos habove, if_neg hhere, if_pos habove,
        if_neg fun hlong => hlong.2.1 habove]
    · rw [if_neg hhere, if_neg habove, if_neg hhere, if_neg habove]
      by_cases hlong : maxName < (utf8 name).length
      · rw [if_pos hlong, if_pos ⟨hhere, habove, hlong⟩]
      · rw [if_neg hlong, if_neg fun hall => hlong hall.2.2]

theorem descend_nil (h : fs.handleAt? place = some handle) :
    fs.descend place [] = .ok (place, handle) := by
  rw [descend, h]

/-- What is walked through is a directory. -/
theorem directory_of_descend_cons {name : String}
    (h : fs.descend place (name :: names) = .ok (found, handle)) :
    fs.handleAt? place = some .directory := by
  unfold descend at h
  cases hhandle : fs.handleAt? place with
  | none =>
    rw [hhandle] at h
    cases h
  | some there =>
    cases there with
    | directory => rfl
    | file number =>
      rw [hhandle] at h
      cases h

theorem directory_of_descend (h : fs.descend place names = .ok (found, .directory)) :
    fs.handleAt? place = some .directory := by
  cases names with
  | nil =>
    obtain ⟨rfl, hhandle⟩ := descend_eq_ok h
    exact hhandle
  | cons name rest => exact directory_of_descend_cons h

/-- A walk goes on from where its first part ends. -/
theorem descend_append {more : List String} (h : fs.descend place names = .ok (found, handle)) :
    fs.descend place (names ++ more) = fs.descend found more := by
  induction names generalizing place with
  | nil =>
    obtain ⟨rfl, -⟩ := descend_eq_ok h
    rfl
  | cons name rest ih =>
    have hhere := directory_of_descend_cons h
    rw [List.cons_append, descend_cons hhere]
    rw [descend_cons hhere] at h
    by_cases hlong : name ≠ "." ∧ name ≠ ".." ∧ maxName < (utf8 name).length
    · rw [if_pos hlong] at h
      cases h
    · rw [if_neg hlong] at h ⊢
      exact ih h

/-! ## Opening -/

/-- What a path opens: the walk ends where it leads, and a last slash needs a directory. -/
theorem openHandle_eq_ok : fs.openHandle p = .ok handle ↔
    checkPath p = .ok () ∧ fs.descend (fs.origin p) p.names = .ok (fs.placeOf p, handle) ∧
      (p.endsInSlash = true → handle = .directory) := by
  unfold openHandle resolve
  cases hcheck : checkPath p with
  | error fault => exact iff_of_false nofun fun h => nomatch h.1
  | ok _ =>
    cases hwalk : fs.descend (fs.origin p) p.names with
    | error fault => exact iff_of_false nofun fun h => nomatch h.2.1
    | ok answer =>
      obtain ⟨found, there⟩ := answer
      obtain rfl : found = fs.placeOf p := (descend_eq_ok hwalk).1
      cases there with
      | directory =>
        constructor
        · rintro ⟨⟩
          exact ⟨rfl, rfl, fun _ => rfl⟩
        · rintro ⟨-, ⟨⟩, -⟩
          rfl
      | file number =>
        by_cases hslash : p.endsInSlash = true
        · apply iff_of_false
          · simp [bind, Except.bind, Functor.map, Except.map, hslash]
          · rintro ⟨-, ⟨⟩, hdirectory⟩
            exact nomatch hdirectory hslash
        · simp [bind, Except.bind, Functor.map, Except.map, hslash]

/-- What is opened is where the path leads. -/
theorem handleAt?_of_openHandle (h : fs.openHandle p = .ok handle) :
    fs.handleAt? (fs.placeOf p) = some handle :=
  (descend_eq_ok (openHandle_eq_ok.mp h).2.1).2

theorem isDirectory_iff : fs.isDirectory p = true ↔ fs.openHandle p = .ok .directory := by
  unfold isDirectory
  cases fs.openHandle p with
  | error fault => exact iff_of_false nofun nofun
  | ok there => cases there <;> simp

theorem isFile_iff : fs.isFile p = true ↔ ∃ number, fs.openHandle p = .ok (.file number) := by
  unfold isFile
  cases fs.openHandle p with
  | error fault => exact iff_of_false nofun nofun
  | ok there => cases there <;> simp

theorem text_ne_empty (h : checkPath p = .ok ()) : p.text ≠ "" := by
  intro hempty
  rw [checkPath, hempty] at h
  cases h

/-! ## Entries that are made -/

/-- A path that makes an entry makes it at the place that it leads to. -/
theorem newEntry_eq_ok {name : String} (h : fs.newEntry p = .ok (place, some name)) :
    place ++ [name] = fs.placeOf p := by
  obtain ⟨_, -, h⟩ := bind_eq_ok.mp h
  cases hlast : p.names.getLast? with
  | none =>
    rw [hlast] at h
    cases h
  | some last =>
    rw [hlast] at h
    obtain ⟨⟨there, handle⟩, hwalk, h⟩ := bind_eq_ok.mp h
    dsimp only at h
    cases handle with
    | file number => cases h
    | directory =>
      dsimp only at h
      by_cases hdots : (last = "." || last = "..") = true
      · rw [if_pos hdots] at h
        cases h
      · rw [if_neg hdots] at h
        cases h
        simp only [Bool.or_eq_true, decide_eq_true_eq, not_or] at hdots
        obtain ⟨before, hnames⟩ := List.getLast?_eq_some_iff.mp hlast
        rw [hnames, List.dropLast_concat] at hwalk
        rw [placeOf, hnames, List.foldl_append, ← (descend_eq_ok hwalk).1, List.foldl_cons,
          List.foldl_nil, step, if_neg hdots.1, if_neg hdots.2]

end FileSystem

namespace Path

/-! ## Joined paths -/

theorem names_append (start rest : String) :
    names ⟨start ++ "/" ++ rest⟩ = names ⟨start⟩ ++ names ⟨rest⟩ := by
  have hsplit : (start ++ "/" ++ rest).toList.splitOn '/' =
      start.toList.splitOn '/' ++ rest.toList.splitOn '/' := by
    rw [String.toList_append, String.toList_append, List.append_assoc]
    exact List.splitOnP_append_cons _ _ rfl
  simp only [names, hsplit, List.filter_append, List.map_append]

theorem names_of_empty : names ⟨""⟩ = [] := rfl

theorem names_of_no_slash {name : String} (hne : name ≠ "") (h : '/' ∉ name.toList) :
    names ⟨name⟩ = [name] := by
  have hfilled : (!name.toList.isEmpty) = true := by
    simpa using hne
  simp only [names, List.splitOn_eq_singleton h, List.filter_cons, hfilled, if_true,
    List.filter_nil, List.map_cons, List.map_nil, String.ofList_toList]

theorem isAbsolute_eq_false {name : String} (h : '/' ∉ name.toList) :
    isAbsolute ⟨name⟩ = false := by
  cases hlist : name.toList with
  | nil => simp [isAbsolute, hlist]
  | cons c rest =>
    rw [hlist] at h
    have hc : c ≠ '/' := fun heq => h (heq ▸ List.mem_cons_self)
    simp [isAbsolute, hlist, hc]

/-- The slash that ends a path does not count among its names. -/
theorem names_of_endsInSlash {base : Path} (h : base.endsInSlash = true) (rest : String) :
    names ⟨base.text ++ rest⟩ = base.names ++ names ⟨rest⟩ := by
  obtain ⟨before, hbefore⟩ := List.getLast?_eq_some_iff.mp (beq_iff_eq.mp h)
  have htext : base.text = String.ofList before ++ "/" := by
    rw [← String.toList_inj, hbefore, String.toList_append, String.toList_ofList]
    rfl
  have hbase : base.names = names ⟨String.ofList before⟩ := by
    have happend := names_append (String.ofList before) ""
    rw [String.append_empty, ← htext, names_of_empty, List.append_nil] at happend
    exact happend
  rw [htext, names_append, hbase]

theorem names_join (base : Path) {name : String} (h : '/' ∉ name.toList) :
    (base.join name).names = base.names ++ names ⟨name⟩ := by
  unfold join
  rw [isAbsolute_eq_false h, if_neg Bool.false_ne_true]
  by_cases hempty : base.text.isEmpty = true
  · have htext : base.text = "" := String.isEmpty_iff.mp hempty
    rw [hempty, Bool.true_or, if_pos rfl, htext, String.empty_append]
    have hbase : base.names = [] := by
      unfold names
      rw [htext]
      rfl
    rw [hbase, List.nil_append]
  · rw [Bool.not_eq_true] at hempty
    rw [hempty, Bool.false_or]
    by_cases hslash : base.endsInSlash = true
    · rw [if_pos hslash]
      exact names_of_endsInSlash hslash name
    · rw [if_neg hslash]
      exact names_append base.text name

theorem isAbsolute_join (base : Path) {name : String} (h : '/' ∉ name.toList) :
    (base.join name).isAbsolute = base.isAbsolute := by
  have happend (rest : String) (hne : base.text ≠ "") :
      isAbsolute ⟨base.text ++ rest⟩ = base.isAbsolute := by
    obtain ⟨c, more, hlist⟩ := List.exists_cons_of_ne_nil (mt String.toList_eq_nil_iff.mp hne)
    rw [isAbsolute, isAbsolute, String.toList_append, hlist, List.cons_append, List.head?_cons,
      List.head?_cons]
  unfold join
  rw [isAbsolute_eq_false h, if_neg Bool.false_ne_true]
  by_cases hempty : base.text = ""
  · have hbase : base.isAbsolute = false := by
      rw [isAbsolute, hempty]
      rfl
    rw [String.isEmpty_iff.mpr hempty, Bool.true_or, if_pos rfl, hempty, String.empty_append,
      isAbsolute_eq_false h, hbase]
  · split
    · exact happend name hempty
    · rw [String.append_assoc]
      exact happend _ hempty

end Path

namespace FileSystem

/-- A plain name leads from where a path leads to the entry of that name. -/
theorem placeOf_join (fs : FileSystem) (base : Path) {name : String} (hslash : '/' ∉ name.toList)
    (hname : name ∉ ["", ".", ".."]) :
    fs.placeOf (base.join name) = fs.placeOf base ++ [name] := by
  simp only [List.mem_cons, List.not_mem_nil, or_false, not_or] at hname
  rw [placeOf, placeOf, origin, origin, Path.isAbsolute_join base hslash,
    Path.names_join base hslash, Path.names_of_no_slash hname.1 hslash, List.foldl_append,
    List.foldl_cons, List.foldl_nil]
  rw [step, if_neg hname.2.1, if_neg hname.2.2]

end FileSystem

end Cartridge
