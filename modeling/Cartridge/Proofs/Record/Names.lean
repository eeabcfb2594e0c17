import Cartridge.Proofs.Record.Fields
import Mathlib.Data.List.Basic
import Mathlib.Data.List.TakeWhile

/-!
# The two views of a name

What a name shows and what it answers to differ in general: a byte from 0x80 on is shown as a
character that takes two bytes, and what stands after the first zero is not shown at all. They
agree on the clean names, and only there. The shown text is never shorter than the bytes it
shows, and of the same length only if all of them are ASCII, so that no other name happens to
answer to its own text.
-/
namespace Cartridge

/-! ## Bytes and characters -/

theorem forall_byte {P : UInt8 → Prop} (h : ∀ k < 0x100, P (UInt8.ofNat k)) (x : UInt8) :
    P x := by
  have hx := h x.toNat x.toNat_lt
  rwa [UInt8.ofNat_toNat] at hx

theorem forall_isAscii {P : Char → Prop} (h : ∀ k < 0x80, P (Char.ofNat k)) (c : Char)
    (hc : isAscii c = true) : P c := by
  have hlow := h c.toNat (of_decide_eq_true hc)
  rwa [Char.ofNat_toNat] at hlow

/-- The UTF-8 form of the character that a byte is shown as. -/
def shownByte (x : UInt8) : List UInt8 := String.utf8EncodeChar (Char.ofNat x.toNat)

theorem length_shownByte : ∀ x : UInt8, (shownByte x).length = if 0x80 ≤ x then 2 else 1 :=
  forall_byte (by decide +kernel)

theorem shownByte_of_lt : ∀ x : UInt8, x < 0x80 → shownByte x = [x] :=
  forall_byte (by decide +kernel)

theorem zero_mem_shownByte : ∀ x : UInt8, 0 ∈ shownByte x → x = 0 :=
  forall_byte (by decide +kernel)

theorem utf8EncodeChar_of_isAscii :
    ∀ c : Char, isAscii c = true → String.utf8EncodeChar c = [UInt8.ofNat c.toNat] :=
  forall_isAscii (by decide +kernel)

theorem ofNat_toNat_of_isAscii :
    ∀ c : Char, isAscii c = true → Char.ofNat (UInt8.ofNat c.toNat).toNat = c :=
  forall_isAscii (by decide +kernel)

theorem ofNat_eq_zero_of_isAscii :
    ∀ c : Char, isAscii c = true → (UInt8.ofNat c.toNat = 0 ↔ c = '\x00') :=
  forall_isAscii (by decide +kernel)

/-- Each byte from 0x80 on makes the shown text one byte longer. -/
theorem length_flatMap_shownByte (b : List UInt8) :
    (b.flatMap shownByte).length = b.length + b.countP (0x80 ≤ ·) := by
  induction b with
  | nil => rfl
  | cons x b ih =>
    rw [List.flatMap_cons, List.length_append, ih, length_shownByte, List.countP_cons,
      List.length_cons]
    simp only [decide_eq_true_eq]
    split <;> omega

theorem flatMap_shownByte_eq_self_iff (b : List UInt8) :
    b.flatMap shownByte = b ↔ ∀ x ∈ b, x < 0x80 := by
  constructor
  · intro h x hx
    have hlength := length_flatMap_shownByte b
    rw [h] at hlength
    have hnone : b.countP (0x80 ≤ ·) = 0 := by omega
    have hlow := List.countP_eq_zero.mp hnone x hx
    rwa [decide_eq_true_eq, UInt8.not_le] at hlow
  · intro h
    rw [List.flatMap_congr fun x hx => shownByte_of_lt x (h x hx), List.flatMap_singleton']

/-! ## The bytes before the first zero -/

theorem takeWhile_append_zeros (b : List UInt8) (k : Nat) :
    (b ++ List.replicate k 0).takeWhile (· != 0) = b.takeWhile (· != 0) := by
  induction b with
  | nil => cases k <;> rfl
  | cons x b ih =>
    rw [List.cons_append, List.takeWhile_cons, List.takeWhile_cons, ih]

/-- No zero is shown, and so none is among the bytes of a shown text. -/
theorem takeWhile_flatMap_shownByte (b : List UInt8) :
    ((b.takeWhile (· != 0)).flatMap shownByte).takeWhile (· != 0) =
      (b.takeWhile (· != 0)).flatMap shownByte := by
  refine List.takeWhile_eq_self_iff.mpr fun y hy => bne_iff_ne.mpr ?_
  rintro rfl
  obtain ⟨x, hx, hzero⟩ := List.mem_flatMap.mp hy
  obtain rfl := zero_mem_shownByte x hzero
  simpa using List.mem_takeWhile_imp hx

/-- ASCII text, written in bytes and shown again. -/
theorem shown_of_isAscii (l : List Char) (h : ∀ c ∈ l, isAscii c = true) :
    ((l.map fun c => UInt8.ofNat c.toNat).takeWhile (· != 0)).map (fun x => Char.ofNat x.toNat) =
      l.takeWhile (· != '\x00') := by
  induction l with
  | nil => rfl
  | cons c l ih =>
    obtain ⟨hc, hl⟩ := List.forall_mem_cons.mp h
    rw [List.map_cons, List.takeWhile_cons, List.takeWhile_cons]
    by_cases hzero : c = '\x00'
    · subst hzero
      rfl
    · have hbyte : UInt8.ofNat c.toNat ≠ 0 := fun heq =>
        hzero ((ofNat_eq_zero_of_isAscii c hc).mp heq)
      rw [if_pos (bne_iff_ne.mpr hbyte), if_pos (bne_iff_ne.mpr hzero), List.map_cons,
        ofNat_toNat_of_isAscii c hc, ih hl]

namespace FixedName

variable {n : Nat} {a b : FixedName n} {s : String}

/-! ## Writing and finding -/

theorem eq_of_isNamed (ha : a.isNamed s = true) (hb : b.isNamed s = true) : a = b := by
  rw [isNamed_iff] at ha hb
  cases a
  cases b
  exact congrArg mk (Vector.toList_inj.mp (ha.trans hb.symm))

/-- A text that is written as a name is ASCII, and finds the name. -/
theorem ofString_eq_ok_iff :
    ofString n s = .ok a ↔ (∀ c ∈ s.toList, isAscii c = true) ∧ a.isNamed s = true := by
  rw [ofString]
  by_cases hfits : (utf8 s).length ≤ n
  · have hpadded : (mk (padded n (utf8 s) hfits)).isNamed s = true :=
      isNamed_iff _ _ |>.mpr (by simp [padded, Vector.toList])
    rw [dif_pos hfits, ← List.all_eq_true]
    by_cases hascii : s.toList.all isAscii = true
    · rw [if_pos hascii, Except.ok.injEq]
      constructor
      · rintro rfl
        exact ⟨hascii, hpadded⟩
      · rintro ⟨-, hnamed⟩
        exact eq_of_isNamed hpadded hnamed
    · rw [if_neg hascii]
      simp [hascii]
  · rw [dif_neg hfits]
    simp [isNamed, hfits]

theorem ofString_eq_error_iff (h : ∀ c ∈ s.toList, isAscii c = true) :
    (∃ e, ofString n s = .error e) ↔ n < (utf8 s).length := by
  rw [ofString]
  by_cases hfits : (utf8 s).length ≤ n
  · rw [dif_pos hfits, if_pos (List.all_eq_true.mpr h)]
    exact iff_of_false nofun (Nat.not_lt.mpr hfits)
  · rw [dif_neg hfits]
    exact iff_of_true ⟨_, rfl⟩ (Nat.not_le.mp hfits)

/-- A name that is written from a text shows the text up to its first zero character. -/
theorem text_of_ofString (h : ofString n s = .ok b) :
    b.text = String.ofList (s.toList.takeWhile (· != '\x00')) := by
  obtain ⟨hascii, hnamed⟩ := ofString_eq_ok_iff.mp h
  have hbytes : utf8 s = s.toList.map fun c => UInt8.ofNat c.toNat := by
    rw [utf8, List.flatMap_congr fun c hc => utf8EncodeChar_of_isAscii c (hascii c hc),
      List.map_eq_flatMap]
  rw [isNamed_iff] at hnamed
  rw [text, hnamed, takeWhile_append_zeros, hbytes, shown_of_isAscii _ hascii]

/-! ## Clean names -/

/-- Before the first zero there is only ASCII, and from there on only zeros. -/
structure IsClean (a : FixedName n) : Prop where
  ascii : ∀ x ∈ a.bytes.toList.takeWhile (· != 0), x < 0x80
  zeros : ∀ x ∈ a.bytes.toList.dropWhile (· != 0), x = 0

theorem utf8_text (a : FixedName n) :
    utf8 a.text = (a.bytes.toList.takeWhile (· != 0)).flatMap shownByte := by
  rw [utf8, text, String.toList_ofList, List.flatMap_map]
  rfl

/-- A name answers to the text that it shows if it is clean, and only then. -/
theorem isNamed_text_iff : a.isNamed a.text = true ↔ a.IsClean := by
  have hsplit : a.bytes.toList.takeWhile (· != 0) ++ a.bytes.toList.dropWhile (· != 0) =
      a.bytes.toList := List.takeWhile_append_dropWhile
  rw [isNamed_iff, utf8_text]
  constructor
  · intro h
    have htake := congrArg (List.takeWhile (· != 0)) h
    rw [takeWhile_append_zeros, takeWhile_flatMap_shownByte] at htake
    rw [← htake] at h
    have hdrop := List.append_cancel_left (hsplit.trans h)
    refine ⟨(flatMap_shownByte_eq_self_iff _).mp htake.symm, fun x hx => ?_⟩
    rw [hdrop] at hx
    exact List.eq_of_mem_replicate hx
  · rintro ⟨hascii, hzeros⟩
    have hlength := congrArg List.length hsplit
    rw [List.length_append, Vector.length_toList] at hlength
    have hdrop : a.bytes.toList.dropWhile (· != 0) =
        List.replicate (n - (a.bytes.toList.takeWhile (· != 0)).length) 0 :=
      List.eq_replicate_iff.mpr ⟨by omega, hzeros⟩
    rw [(flatMap_shownByte_eq_self_iff _).mpr hascii, ← hdrop, hsplit]

/-- Only the clean name itself answers to the text of a clean name. -/
theorem IsClean.eq_of_isNamed (hb : b.IsClean) (h : a.isNamed b.text = true) : a = b :=
  FixedName.eq_of_isNamed h (isNamed_text_iff.mpr hb)

end FixedName

namespace SectionTable

theorem mem_used_iff {t : SectionTable} {slot : Slot} :
    slot ∈ t.used ↔ slot ∈ t.slots ∧ slot.isUsed = true := by
  rw [used, List.mem_filter, Vector.mem_toList_iff]

/-- A slot in use is found by the text of its name if that is clean, and only then. -/
theorem position?_text_iff {t : SectionTable} {slot : Slot} (hslot : slot ∈ t.used) :
    (∃ i, t.position? slot.name.text = some i ∧ (t.slots.get i).name = slot.name) ↔
      slot.name.IsClean := by
  rw [← FixedName.isNamed_text_iff]
  constructor
  · rintro ⟨i, hfound, hname⟩
    have hnamed := (findFinIdx?_eq_some_iff.mp hfound).1
    rw [Bool.and_eq_true, hname] at hnamed
    exact hnamed.2
  · intro hnamed
    obtain ⟨hmem, hused⟩ := mem_used_iff.mp hslot
    cases hfound : t.position? slot.name.text with
    | none =>
      -- The slot itself would have been found.
      have hother := Vector.findFinIdx?_eq_none_iff.mp hfound slot hmem
      rw [hused, hnamed] at hother
      exact absurd rfl hother
    | some i =>
      have hother := (findFinIdx?_eq_some_iff.mp hfound).1
      rw [Bool.and_eq_true] at hother
      exact ⟨i, rfl, FixedName.eq_of_isNamed hother.2 hnamed⟩

end SectionTable

/-! ## Both views -/

open FixedName in
/-- An ASCII text finds a name if the name is what is written for it, and is written unless it is
too long; no other text is ever written. What is written shows the text up to its first zero. A name
answers to the text that it shows if it is clean, and only then: so the clean ones are those that a
table finds again by the text it shows for them, and no name answers to the texts of two of them. -/
theorem names_agree {n : Nat} (a : FixedName n) (s : String) (t : SectionTable) :
    ((∀ c ∈ s.toList, isAscii c = true) →
      (a.isNamed s = true ↔ ofString n s = .ok a) ∧
      ((∃ e, ofString n s = .error e) ↔ n < (utf8 s).length)) ∧
    (¬(∀ c ∈ s.toList, isAscii c = true) → ∀ b, ofString n s ≠ .ok b) ∧
    (∀ b, ofString n s = .ok b → b.text = String.ofList (s.toList.takeWhile (· != '\x00'))) ∧
    (a.isNamed a.text = true ↔ a.IsClean) ∧
    (∀ b c : FixedName n, b.IsClean → c.IsClean → a.isNamed b.text = true →
      a.isNamed c.text = true → b = c) ∧
    ∀ slot ∈ t.used,
      (∃ i, t.position? slot.name.text = some i ∧ (t.slots.get i).name = slot.name) ↔
        slot.name.IsClean := by
  refine ⟨fun hascii => ⟨?_, ofString_eq_error_iff hascii⟩, ?_, fun b => text_of_ofString,
    isNamed_text_iff, ?_, fun slot => SectionTable.position?_text_iff⟩
  · rw [ofString_eq_ok_iff, and_iff_right hascii]
  · intro hother b hb
    exact hother (ofString_eq_ok_iff.mp hb).1
  · intro b c hb hc hab hac
    rw [← hb.eq_of_isNamed hab, ← hc.eq_of_isNamed hac]

/-- A name that is a text and zeros. -/
def codeName : FixedName 8 := ⟨FixedName.padded 8 (utf8 ".code") (by decide)⟩

/-- A table whose slots all have that name. -/
def codeTable : SectionTable where
  slots := Vector.replicate 8 ⟨codeName, 0, 1⟩
  reserved := Vector.replicate 0x80 0
  hashes := Vector.replicate 8 (Vector.replicate 0x20 0)

theorem names_agree_code :
    FixedName.ofString 8 ".code" = .ok codeName ∧ codeName.text = ".code" ∧ codeName.IsClean ∧
      ∃ i, codeTable.position? codeName.text = some i ∧
        (codeTable.slots.get i).name = codeName := by
  obtain ⟨hascii, -, htext, hclean, -, hslots⟩ := names_agree codeName ".code" codeTable
  have hok := (hascii (List.all_eq_true.mp (by decide))).1.mp (by decide)
  have hshown : codeName.text = ".code" := htext codeName hok
  have hcodeClean := hclean.mp (by decide)
  have hused : (⟨codeName, 0, 1⟩ : Slot) ∈ codeTable.used := by decide
  exact ⟨hok, hshown, hcodeClean, (hslots _ hused).mpr hcodeClean⟩

end Cartridge
