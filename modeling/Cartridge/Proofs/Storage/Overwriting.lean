import Cartridge.Proofs.Storage.Writing

/-!
# Files that are written over

A path at which a file was written opens that file, and gives back the bytes that were written last.
As long as the paths of several files lead to files of their own, a write to one of them leaves the
others as they are.
-/
namespace Cartridge.FileSystem

variable {fs now : FileSystem} {p q : Path} {place found names : List String} {handle : Handle}
  {number own : Nat} {written targets : List Path} {bytes held : Bytes}

theorem wholeFile?_eq_some_iff : fs.wholeFile? p = some bytes ↔
    ∃ number, fs.openHandle p = .ok (.file number) ∧ fs.bytesOf number = bytes := by
  unfold wholeFile?
  cases fs.openHandle p with
  | error fault => simp [Except.toOption]
  | ok there => cases there <;> simp [Except.toOption, readAll]

theorem isFile_eq_isSome (fs : FileSystem) (p : Path) : fs.isFile p = (fs.wholeFile? p).isSome := by
  unfold isFile wholeFile?
  cases fs.openHandle p with
  | error fault => rfl
  | ok there => cases there <;> rfl

/-- Paths that lead to the same place open the same file, if they open one. -/
theorem bytes_eq_of_placeOf (hplace : fs.placeOf p = fs.placeOf q)
    (hp : fs.wholeFile? p = some bytes) (hq : fs.wholeFile? q = some held) : bytes = held := by
  obtain ⟨number, hopen, rfl⟩ := wholeFile?_eq_some_iff.mp hp
  obtain ⟨other, hopen', rfl⟩ := wholeFile?_eq_some_iff.mp hq
  have hhere := handleAt?_of_openHandle hopen
  have hthere := handleAt?_of_openHandle hopen'
  rw [hplace, hthere] at hhere
  cases hhere
  rfl

/-! ## Paths that go on to open -/

/-- A walk that comes through still does when files were stored. -/
theorem Stores.descend_of_ok (h : fs.Stores written now)
    (hwalk : fs.descend place names = .ok (found, handle)) :
    now.descend place names = .ok (found, handle) := by
  induction names generalizing place with
  | nil =>
    obtain ⟨rfl, hhere⟩ := descend_eq_ok hwalk
    exact descend_nil (h.kept _ _ hhere)
  | cons name rest ih =>
    have hhere := directory_of_descend_cons hwalk
    rw [descend_cons hhere] at hwalk
    rw [descend_cons (h.kept _ _ hhere)]
    by_cases hlong : name ≠ "." ∧ name ≠ ".." ∧ maxName < (utf8 name).length
    · rw [if_pos hlong] at hwalk
      cases hwalk
    · rw [if_neg hlong] at hwalk ⊢
      exact ih hwalk

theorem Stores.openHandle_of_ok (h : fs.Stores written now) (hopen : fs.openHandle p = .ok handle) :
    now.openHandle p = .ok handle := by
  obtain ⟨hcheck, hwalk, hslash⟩ := openHandle_eq_ok.mp hopen
  apply openHandle_eq_ok.mpr
  rw [placeOf_congr h.start_eq, origin, h.start_eq]
  exact ⟨hcheck, h.descend_of_ok hwalk, hslash⟩

/-- A path that makes an entry would still make it there. -/
theorem Stores.newEntry_of_ok {last : Option String} (h : fs.Stores written now)
    (hentry : fs.newEntry p = .ok (place, last)) : now.newEntry p = .ok (place, last) := by
  unfold newEntry at hentry ⊢
  obtain ⟨_, hcheck, hentry⟩ := bind_eq_ok.mp hentry
  refine bind_eq_ok.mpr ⟨(), hcheck, ?_⟩
  cases hlast : p.names.getLast? with
  | none =>
    rw [hlast] at hentry
    exact hentry
  | some name =>
    rw [hlast] at hentry
    obtain ⟨⟨above, there⟩, hwalk, hentry⟩ := bind_eq_ok.mp hentry
    rw [origin, h.start_eq]
    exact bind_eq_ok.mpr ⟨(above, there), h.descend_of_ok hwalk, hentry⟩

/-- A path opens what is at the place where it would make an entry. -/
theorem openHandle_of_newEntry {name : String} (h : fs.newEntry p = .ok (place, some name))
    (hslash : ¬p.endsInSlash = true) (hlong : ¬maxName < (utf8 name).length)
    (hthere : fs.handleAt? (fs.placeOf p) = some handle) : fs.openHandle p = .ok handle := by
  have hplace := newEntry_eq_ok h
  obtain ⟨_, hcheck, h⟩ := bind_eq_ok.mp h
  refine openHandle_eq_ok.mpr ⟨hcheck, ?_, fun hends => absurd hends hslash⟩
  cases hlast : p.names.getLast? with
  | none =>
    rw [hlast] at h
    cases h
  | some last =>
    rw [hlast] at h
    obtain ⟨⟨above, there⟩, hwalk, h⟩ := bind_eq_ok.mp h
    cases there with
    | file number => cases h
    | directory =>
      dsimp only at h
      by_cases hdots : (last = "." || last = "..") = true
      · rw [if_pos hdots] at h
        cases h
      · rw [if_neg hdots] at h
        cases h
        obtain ⟨before, hnames⟩ := List.getLast?_eq_some_iff.mp hlast
        have hbefore : p.names.dropLast = before := by rw [hnames, List.dropLast_concat]
        rw [hbefore] at hwalk
        have habove := (descend_eq_ok hwalk).2
        have hstep : step place name = fs.placeOf p := by
          rw [← hplace, step]
          simp at hdots
          rw [if_neg hdots.1, if_neg hdots.2]
        rw [hnames, descend_append hwalk, descend_cons habove, if_neg fun hall => hlong hall.2.2,
          hstep]
        exact descend_nil hthere

/-! ## One write -/

/-- The file at a path is made if it is not there, and its bytes are replaced. -/
def Overwrites (fs : FileSystem) (p : Path) (bytes : Bytes) (now : FileSystem) : Prop :=
  ∃ number created, fs.create p = .ok (number, created) ∧ now = created.setBytes number bytes

theorem overwrites_of_store (h : fs.store p bytes = .ok now) : fs.Overwrites p bytes now := by
  obtain ⟨⟨number, created⟩, hcreate, h⟩ := bind_eq_ok.mp (mapError_eq_ok.mp h)
  cases h
  exact ⟨number, created, hcreate, rfl⟩

/-- How a file is created: the one that is there is emptied, or else one with a new number made. -/
theorem create_cases (h : fs.create p = .ok (number, now)) :
    ∃ above name, fs.newEntry p = .ok (above, some name) ∧ ¬p.endsInSlash = true ∧
      ¬maxName < (utf8 name).length ∧
      ((fs.handleAt? (fs.placeOf p) = some (.file number) ∧ now = fs.setBytes number #[]) ∨
        (fs.handleAt? (fs.placeOf p) = none ∧ number = fs.contents.size ∧
          now.contents = fs.contents.push #[])) := by
  obtain ⟨⟨above, last⟩, hentry, h⟩ := bind_eq_ok.mp h
  cases last with
  | none => cases h
  | some name =>
    dsimp only at h
    rw [newEntry_eq_ok hentry] at h
    by_cases hslash : p.endsInSlash = true
    · rw [if_pos hslash] at h
      cases h
    by_cases hlong : maxName < (utf8 name).length
    · rw [if_neg hslash, if_pos hlong] at h
      cases h
    rw [if_neg hslash, if_neg hlong] at h
    refine ⟨above, name, hentry, hslash, hlong, ?_⟩
    cases hthere : fs.handleAt? (fs.placeOf p) with
    | none =>
      rw [hthere] at h
      cases h
      exact .inr ⟨rfl, rfl, rfl⟩
    | some handle =>
      rw [hthere] at h
      cases handle with
      | directory => cases h
      | file number =>
        cases h
        exact .inl ⟨rfl, rfl⟩

theorem bytesOf_setBytes (h : number < fs.contents.size) :
    (fs.setBytes number bytes).bytesOf number = bytes := by
  rw [bytesOf, setBytes, Array.getD_eq_getD_getElem?, Array.getElem?_setIfInBounds_self_of_lt h]
  rfl

theorem size_setBytes : (fs.setBytes number bytes).contents.size = fs.contents.size :=
  Array.size_setIfInBounds

/-- One write: the path then opens this file, which holds these bytes, and the other files keep
theirs. The file is the one that the path opened before, or one with a new number. -/
structure Written (fs : FileSystem) (p : Path) (bytes : Bytes) (now : FileSystem) (number : Nat) :
    Prop where
  stores : fs.Stores [p] now
  opens : now.openHandle p = .ok (.file number)
  numbered : number < now.contents.size
  size_le : fs.contents.size ≤ now.contents.size
  holds : now.bytesOf number = bytes
  others : ∀ other, other ≠ number → now.bytesOf other = fs.bytesOf other
  before : fs.openHandle p = .ok (.file number) ∨
    fs.handleAt? (fs.placeOf p) = none ∧ number = fs.contents.size

/-- A file whose number was never given out holds nothing, whatever is written to it; any other is
written as it should be. -/
theorem Overwrites.exists_written (h : fs.Overwrites p bytes now)
    (hnumbered : ∀ number, fs.openHandle p = .ok (.file number) → number < fs.contents.size) :
    ∃ number, fs.Written p bytes now number := by
  obtain ⟨number, created, hcreate, rfl⟩ := h
  obtain ⟨hstores, hfile⟩ := stores_create hcreate
  have hlast := hstores.setBytes (List.mem_singleton_self p) hfile bytes
  obtain ⟨above, name, hentry, hslash, hlong, hcases⟩ := create_cases hcreate
  have hopens : (created.setBytes number bytes).openHandle p = .ok (.file number) := by
    apply openHandle_of_newEntry (hlast.newEntry_of_ok hentry) hslash hlong
    rw [placeOf_congr hlast.start_eq]
    exact hfile
  have hother (other : Nat) (hne : other ≠ number)
      (hsame : created.bytesOf other = fs.bytesOf other) :
      (created.setBytes number bytes).bytesOf other = fs.bytesOf other := by
    rw [bytesOf_setBytes_of_ne hne, hsame]
  refine ⟨number, ?_⟩
  rcases hcases with ⟨hthere, rfl⟩ | ⟨hnone, rfl, hcontents⟩
  · have hopen := openHandle_of_newEntry hentry hslash hlong hthere
    have hsize : number < (fs.setBytes number #[]).contents.size := by
      rw [size_setBytes]
      exact hnumbered number hopen
    refine ⟨hlast, hopens, by rwa [size_setBytes], ?_, bytesOf_setBytes hsize, ?_, .inl hopen⟩
    · exact Nat.le_of_eq (by rw [size_setBytes, size_setBytes])
    · intro other hne
      exact hother other hne (bytesOf_setBytes_of_ne hne)
  · have hsize : fs.contents.size < created.contents.size := by
      rw [hcontents, Array.size_push]
      exact Nat.lt_succ_self _
    refine ⟨hlast, hopens, by rwa [size_setBytes], ?_, bytesOf_setBytes hsize, ?_,
      .inr ⟨hnone, rfl⟩⟩
    · rw [size_setBytes]
      exact Nat.le_of_lt hsize
    · intro other hne
      apply hother other hne
      rw [bytesOf, hcontents]
      exact getD_push_empty other

/-! ## Directories -/

/-- What is true after each directory that is made is true after all of them. -/
theorem makeDirectories_induction {P : FileSystem → Prop} (hfs : P fs)
    (hstep : ∀ fs p now, P fs → fs.makeDirectory p = .ok now → P now)
    (h : fs.makeDirectories p = .ok now) : P now := by
  have hcount (count : Nat) : ∀ p now, makeDirectoriesUpTo count fs p = .ok now → P now := by
    induction count with
    | zero => exact nofun
    | succ count ih =>
      intro p now h
      unfold makeDirectoriesUpTo at h
      split at h
      · cases h
        exact hfs
      · split at h
        case h_1 hmade =>
          cases h
          exact hstep fs p _ hfs hmade
        case h_2 =>
          -- The directory above is missing: what is made for it comes first.
          dsimp only at h
          split at h
          case h_1 =>
            obtain ⟨above, habove, h⟩ := bind_eq_ok.mp h
            have hfirst := ih _ above habove
            split at h
            case h_1 hmade =>
              cases h
              exact hstep above p _ hfirst hmade
            case h_2 =>
              rw [← eq_of_ite_ok h]
              exact hfirst
          case h_2 => cases h
        case h_3 =>
          rw [← eq_of_ite_ok h]
          exact hfs
  exact hcount _ p now h

theorem contents_makeDirectory (h : fs.makeDirectory p = .ok now) : now.contents = fs.contents := by
  obtain ⟨⟨above, last⟩, -, h⟩ := bind_eq_ok.mp h
  cases last with
  | none => cases h
  | some name =>
    dsimp only at h
    split at h
    · cases h
    · split at h
      · cases h
      · cases h
        rfl

/-- Making directories gives out no number. -/
theorem contents_makeDirectories (h : fs.makeDirectories p = .ok now) :
    now.contents = fs.contents :=
  makeDirectories_induction (P := fun made => made.contents = fs.contents) rfl
    (fun _ _ _ hsame hmade => (contents_makeDirectory hmade).trans hsame) h

/-! ## Several files -/

/-- The paths lead to files of their own, which have numbers, and none of them is this file. -/
structure Separate (fs : FileSystem) (own : Nat) (targets : List Path) : Prop where
  own_numbered : own < fs.contents.size
  numbered : ∀ p ∈ targets, ∀ number, fs.handleAt? (fs.placeOf p) = some (.file number) →
    number < fs.contents.size
  not_own : ∀ p ∈ targets, fs.handleAt? (fs.placeOf p) ≠ some (.file own)
  apart : ∀ p ∈ targets, ∀ q ∈ targets, ∀ number,
    fs.handleAt? (fs.placeOf p) = some (.file number) →
    fs.handleAt? (fs.placeOf q) = some (.file number) → fs.placeOf p = fs.placeOf q

/-- Where nothing is yet, files are separate. -/
theorem separate_of_new (hown : own < fs.contents.size)
    (hnew : ∀ p ∈ targets, fs.handleAt? (fs.placeOf p) = none) : fs.Separate own targets where
  own_numbered := hown
  numbered p hp _ h := nomatch (hnew p hp).symm.trans h
  not_own p hp h := nomatch (hnew p hp).symm.trans h
  apart p hp _ _ _ h _ := nomatch (hnew p hp).symm.trans h

namespace Separate

variable (h : fs.Separate own targets)
include h

theorem of_stores_nil (hstores : fs.Stores [] now) (hcontents : now.contents = fs.contents) :
    now.Separate own targets := by
  have hplace := placeOf_congr hstores.start_eq
  have hfile (p : Path) (number : Nat)
      (hthere : now.handleAt? (fs.placeOf p) = some (.file number)) :
      fs.handleAt? (fs.placeOf p) = some (.file number) := by
    rcases hstores.created _ _ hthere with hbefore | ⟨_, hmem, -⟩
    · exact hbefore
    · cases hmem
  constructor
  · rw [hcontents]
    exact h.own_numbered
  · intro p hp number hthere
    rw [hplace] at hthere
    rw [hcontents]
    exact h.numbered p hp number (hfile p number hthere)
  · intro p hp hthere
    rw [hplace] at hthere
    exact h.not_own p hp (hfile p own hthere)
  · intro p hp q hq number hthere hthere'
    rw [hplace] at hthere hthere' ⊢
    rw [hplace]
    exact h.apart p hp q hq number (hfile p number hthere) (hfile q number hthere')

section

variable (hp : p ∈ targets) (hw : fs.Written p bytes now number)
include hp hw

omit h hp in
/-- A file is at the place where it was, or at that of the write. -/
theorem file_cases {other : Nat} (hthere : now.handleAt? (fs.placeOf q) = some (.file other)) :
    fs.handleAt? (fs.placeOf q) = some (.file other) ∨
      fs.placeOf q = fs.placeOf p ∧ other = number := by
  rcases hw.stores.created _ _ hthere with hbefore | ⟨r, hr, hsame⟩
  · exact .inl hbefore
  · rw [List.mem_singleton.mp hr] at hsame
    have hopen := handleAt?_of_openHandle hw.opens
    rw [placeOf_congr hw.stores.start_eq, hsame, hthere] at hopen
    cases hopen
    exact .inr ⟨hsame.symm, rfl⟩

theorem number_ne_own : number ≠ own := by
  rintro rfl
  rcases hw.before with hopen | ⟨-, hnew⟩
  · exact h.not_own p hp (handleAt?_of_openHandle hopen)
  · exact absurd h.own_numbered (by omega)

/-- No other path leads to the file that is written. -/
theorem placeOf_eq (hq : q ∈ targets)
    (hthere : fs.handleAt? (fs.placeOf q) = some (.file number)) :
    fs.placeOf q = fs.placeOf p := by
  rcases hw.before with hopen | ⟨-, hnew⟩
  · exact h.apart q hq p hp number hthere (handleAt?_of_openHandle hopen)
  · have hlow := h.numbered q hq number hthere
    omega

/-- A write to one of the paths leaves them separate. -/
theorem of_written : now.Separate own targets := by
  have hplace := placeOf_congr hw.stores.start_eq
  constructor
  · exact Nat.lt_of_lt_of_le h.own_numbered hw.size_le
  · intro q hq other hthere
    rw [hplace] at hthere
    rcases file_cases hw hthere with hbefore | ⟨-, rfl⟩
    · exact Nat.lt_of_lt_of_le (h.numbered q hq other hbefore) hw.size_le
    · exact hw.numbered
  · intro q hq hthere
    rw [hplace] at hthere
    rcases file_cases hw hthere with hbefore | ⟨-, hown⟩
    · exact h.not_own q hq hbefore
    · exact h.number_ne_own hp hw hown.symm
  · intro q hq r hr other hfirst hsecond
    rw [hplace] at hfirst hsecond
    rw [hplace, hplace]
    rcases file_cases hw hfirst with hq' | ⟨hsame, rfl⟩
    · rcases file_cases hw hsecond with hr' | ⟨hsame, rfl⟩
      · exact h.apart q hq r hr other hq' hr'
      · rw [hsame, h.placeOf_eq hp hw hq hq']
    · rcases file_cases hw hsecond with hr' | ⟨hsame', -⟩
      · rw [hsame, h.placeOf_eq hp hw hr hr']
      · rw [hsame, hsame']

/-- What another of the paths leads to is as before. -/
theorem wholeFile?_of_written (hq : q ∈ targets) (hne : fs.placeOf q ≠ fs.placeOf p)
    (hheld : fs.wholeFile? q = some held) : now.wholeFile? q = some held := by
  obtain ⟨other, hopen, hbytes⟩ := wholeFile?_eq_some_iff.mp hheld
  apply wholeFile?_eq_some_iff.mpr
  refine ⟨other, hw.stores.openHandle_of_ok hopen, ?_⟩
  rw [hw.others other, hbytes]
  rintro rfl
  exact hne (h.placeOf_eq hp hw hq (handleAt?_of_openHandle hopen))

theorem bytesOf_own : now.bytesOf own = fs.bytesOf own :=
  hw.others own (h.number_ne_own hp hw).symm

end

/-- A file that is created for one of the paths is empty, and the file of its own stays. -/
theorem bytesOf_own_of_create (hp : p ∈ targets) (hcreate : fs.create p = .ok (number, now)) :
    now.bytesOf own = fs.bytesOf own := by
  obtain ⟨_, _, -, -, -, hcases⟩ := create_cases hcreate
  rcases hcases with ⟨hthere, rfl⟩ | ⟨-, -, hcontents⟩
  · apply bytesOf_setBytes_of_ne
    rintro rfl
    exact h.not_own p hp hthere
  · rw [bytesOf, hcontents]
    exact getD_push_empty own

end Separate

/-! ## Several writes -/

/-- Writes to paths that are separate, one after the other. Each path that was written to holds the
bytes of the last write to its place, and each of the others what it held. -/
structure Wrote (own : Nat) (targets : List Path) (writes : List (Path × Bytes))
    (fs now : FileSystem) : Prop where
  stores : fs.Stores (writes.map Prod.fst) now
  separate : now.Separate own targets
  own_eq : now.bytesOf own = fs.bytesOf own
  last : ∀ write ∈ writes, ∃ other ∈ writes, fs.placeOf other.1 = fs.placeOf write.1 ∧
    now.wholeFile? write.1 = some other.2
  kept : ∀ q ∈ targets, (∀ write ∈ writes, fs.placeOf write.1 ≠ fs.placeOf q) →
    ∀ held, fs.wholeFile? q = some held → now.wholeFile? q = some held

namespace Wrote

variable {middle : FileSystem} {writes rest : List (Path × Bytes)}

theorem of_makeDirectories (h : fs.Separate own targets) (hmade : fs.makeDirectories p = .ok now) :
    Wrote own targets [] fs now := by
  have hstores := stores_makeDirectories hmade
  refine ⟨hstores, h.of_stores_nil hstores (contents_makeDirectories hmade), hstores.bytesOf_eq own,
    nofun, fun q _ _ held hheld => ?_⟩
  obtain ⟨number, hopen, hbytes⟩ := wholeFile?_eq_some_iff.mp hheld
  apply wholeFile?_eq_some_iff.mpr
  exact ⟨number, hstores.openHandle_of_ok hopen, by rw [hstores.bytesOf_eq, hbytes]⟩

theorem of_overwrites (h : fs.Separate own targets) (hp : p ∈ targets)
    (hw : fs.Overwrites p bytes now) : Wrote own targets [(p, bytes)] fs now := by
  obtain ⟨number, hw⟩ := hw.exists_written
    fun number hopen => h.numbered p hp number (handleAt?_of_openHandle hopen)
  refine ⟨hw.stores, h.of_written hp hw, h.bytesOf_own hp hw, ?_, ?_⟩
  · intro write hwrite
    rw [List.mem_singleton.mp hwrite]
    have hheld := wholeFile?_eq_some_iff.mpr ⟨number, hw.opens, hw.holds⟩
    exact ⟨_, List.mem_singleton_self _, rfl, hheld⟩
  · intro q hq hothers held hheld
    exact h.wholeFile?_of_written hp hw hq (hothers _ (List.mem_singleton_self _)).symm hheld

theorem trans (first : Wrote own targets writes fs middle)
    (second : Wrote own targets rest middle now) (hin : ∀ write ∈ writes, write.1 ∈ targets) :
    Wrote own targets (writes ++ rest) fs now := by
  have hplace := placeOf_congr first.stores.start_eq
  refine ⟨?_, second.separate, second.own_eq.trans first.own_eq, ?_, ?_⟩
  · rw [List.map_append]
    exact first.stores.trans second.stores
  · intro write hwrite
    rcases List.mem_append.mp hwrite with hfirst | hsecond
    · obtain ⟨other, hother, hsame, hheld⟩ := first.last write hfirst
      by_cases hlater : ∃ later ∈ rest, fs.placeOf later.1 = fs.placeOf write.1
      · -- What the later writes leave at this place is what the last of them wrote.
        obtain ⟨later, hmem, hplaces⟩ := hlater
        obtain ⟨final, hfinal, hend, hlast⟩ := second.last later hmem
        rw [hplace, hplace, hplaces] at hend
        refine ⟨final, List.mem_append_right _ hfinal, hend, ?_⟩
        obtain ⟨number, hopen, -⟩ := wholeFile?_eq_some_iff.mp hheld
        have hwhole := wholeFile?_eq_some_iff.mpr
          ⟨number, second.stores.openHandle_of_ok hopen, rfl⟩
        have hnow := placeOf_congr (second.stores.start_eq.trans first.stores.start_eq)
        have hplaceNow : now.placeOf write.1 = now.placeOf later.1 := by
          rw [hnow, hnow, hplaces]
        rw [hwhole, bytes_eq_of_placeOf hplaceNow hwhole hlast]
      · refine ⟨other, List.mem_append_left _ hother, hsame, ?_⟩
        apply second.kept _ (hin write hfirst) _ _ hheld
        intro later hmem hplaces
        rw [hplace, hplace] at hplaces
        exact hlater ⟨later, hmem, hplaces⟩
    · obtain ⟨other, hother, hsame, hheld⟩ := second.last write hsecond
      rw [hplace, hplace] at hsame
      exact ⟨other, List.mem_append_right _ hother, hsame, hheld⟩
  · intro q hq hothers held hheld
    have hmiddle := first.kept q hq
      (fun write hwrite => hothers write (List.mem_append_left _ hwrite)) held hheld
    apply second.kept q hq _ held hmiddle
    intro write hwrite
    rw [hplace, hplace]
    exact hothers write (List.mem_append_right _ hwrite)

end Wrote

/-- Writes files, and makes the directory before each of them. -/
def writeEach (directory : Path) : List (Path × Bytes) → FileSystem → Option FileSystem
  | [], fs => some fs
  | (p, bytes) :: rest, fs => do
    let made ← (fs.makeDirectories directory).toOption
    let now ← (made.store p bytes).toOption
    writeEach directory rest now

theorem writeEach_cons_eq_some {directory : Path} {rest : List (Path × Bytes)} :
    writeEach directory ((p, bytes) :: rest) fs = some now ↔
      ∃ made next, fs.makeDirectories directory = .ok made ∧ made.store p bytes = .ok next ∧
        writeEach directory rest next = some now := by
  rw [writeEach]
  cases hmade : fs.makeDirectories directory with
  | error fault => exact iff_of_false nofun fun ⟨_, _, h, _⟩ => nomatch h
  | ok made =>
    cases hnext : made.store p bytes with
    | error e =>
      apply iff_of_false
      · simp [Except.toOption, hnext]
      · rintro ⟨_, _, ⟨⟩, hstore, -⟩
        exact nomatch hnext.symm.trans hstore
    | ok next =>
      simp only [Except.toOption, hnext, Option.bind_eq_bind, Option.bind_some]
      constructor
      · intro hrest
        exact ⟨made, next, rfl, hnext, hrest⟩
      · rintro ⟨_, _, ⟨⟩, hstore, hrest⟩
        cases hnext.symm.trans hstore
        exact hrest

theorem wrote_of_writeEach {directory : Path} {writes : List (Path × Bytes)}
    (h : fs.Separate own targets) (hin : ∀ write ∈ writes, write.1 ∈ targets)
    (hall : writeEach directory writes fs = some now) : Wrote own targets writes fs now := by
  induction writes generalizing fs with
  | nil =>
    cases hall
    exact ⟨.refl _, h, rfl, nofun, fun _ _ _ _ hheld => hheld⟩
  | cons write rest ih =>
    obtain ⟨p, bytes⟩ := write
    obtain ⟨made, next, hmade, hnext, hlater⟩ := writeEach_cons_eq_some.mp hall
    have hp := hin (p, bytes) List.mem_cons_self
    have hdirectory := Wrote.of_makeDirectories h hmade
    have hfirst := Wrote.of_overwrites hdirectory.separate hp (overwrites_of_store hnext)
    have hrest := ih hfirst.separate (fun other hother => hin other (List.mem_cons_of_mem _ hother))
      hlater
    have hboth := (hdirectory.trans hfirst nofun).trans hrest
    apply hboth
    intro other hother
    rw [List.mem_singleton.mp hother]
    exact hp

end Cartridge.FileSystem
