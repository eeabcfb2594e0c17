import Cartridge.Proofs.Compression.Simulation
import Cartridge.Proofs.Outcome

/-!
# What becomes of the verbatim bytes

The bytes before the compressed region are stored as they are. Between them and the end of the
output there is room for the compressed region and the growth. The machine stops writing at the
start of the output and not at the end of the verbatim bytes, so tokens that produce more than
there is room for are laid over the verbatim bytes, from their end down.
-/
namespace Cartridge.Compression

open Forward

/-- The bytes before the compressed region. -/
def verbatim (input : Bytes) : List UInt8 :=
  input.toList.take (input.size - (footer input.toList).region)

/-- How many bytes lie between the verbatim bytes and the end of the output. -/
def room (input : Bytes) : Nat := (footer input.toList).region + (footer input.toList).growth

/-- The bytes that the tokens of an input stand for, last byte first. -/
def Produces (input : Bytes) (produced : List UInt8) : Prop :=
  decode (input.size + (footer input.toList).growth) (input.size - (footer input.toList).region) []
    (stream input.toList (footer input.toList).region (footer input.toList).skip) [] = .ok produced

/-- Whether as many bytes of the output as are verbatim in the input are the verbatim bytes. -/
def KeepsVerbatim (input output : Bytes) : Prop :=
  output.toList.take (input.size - (footer input.toList).region) = verbatim input

instance (input output : Bytes) : Decidable (KeepsVerbatim input output) :=
  inferInstanceAs (Decidable (_ = _))

/-- No more is produced than the output holds. -/
theorem length_le_of_decode {capacity stop : Nat} {flags : List Bool}
    {stream produced all : List UInt8} (h : decode capacity stop flags stream produced = .ok all)
    (hroom : produced.length ≤ capacity) : all.length ≤ capacity := by
  fun_induction decode capacity stop flags stream produced with
  | case1 =>
    cases h
    exact hroom
  | case2 flags byte rest ih => exact ih h hroom
  | case3 => cases h
  | case4 flags byte rest produced hne ih =>
    apply ih h
    rw [List.length_append, List.length_singleton]
    omega
  | case5 => cases h
  | case6 => cases h
  | case7 => cases h
  | case8 flags high low rest produced hfit hback ih =>
    apply ih h
    rw [length_appendCopies]
    omega

/-- Bytes that are laid over the end of a buffer reach its front only if there are too many. -/
theorem take_overlay {front rest produced : List UInt8}
    (hfit : produced.length ≤ front.length + rest.length) :
    (overlay (front ++ rest) produced).take front.length =
      front.take (front.length - (produced.length - rest.length)) ++
        (produced.drop rest.length).reverse := by
  have hkept : ((front ++ rest).take (front.length + rest.length - produced.length)).length =
      front.length + rest.length - produced.length := by
    rw [List.length_take, List.length_append]
    omega
  have hover : produced.reverse.take
      (front.length - (front.length + rest.length - produced.length)) =
        (produced.drop rest.length).reverse := by
    rw [List.take_reverse]
    by_cases hroom : produced.length ≤ rest.length
    · rw [List.drop_of_length_le hroom, List.drop_of_length_le (by omega)]
    · congr 2
      omega
  rw [overlay, List.length_append, List.take_append, hkept, hover, List.take_take,
    List.take_append_of_le_length (Nat.min_le_left _ _)]
  congr 2
  omega

/-- The front is left as it was exactly if what is too much of the bytes stands there anyway. -/
theorem take_overlay_eq_iff {front rest produced : List UInt8}
    (hfit : produced.length ≤ front.length + rest.length) :
    (overlay (front ++ rest) produced).take front.length = front ↔
      (produced.drop rest.length).reverse <:+ front := by
  rw [take_overlay hfit, List.suffix_iff_eq_append, List.length_reverse, List.length_drop]

/-- What it takes to decompress an input. -/
theorem exists_produced_of_decompress {input output : Bytes}
    (h : Compression.decompress input = .ok output) :
    (footer input.toList).Fits input.size ∧ ∃ produced, Produces input produced ∧
      output.toList =
        overlay (input.toList ++ List.replicate (footer input.toList).growth 0) produced := by
  have hfooter := Footer.ofInput_eq input
  by_cases hshort : input.size < 8
  · rw [if_pos hshort] at hfooter
    rw [decompress_of_footer_error hfooter] at h
    cases h
  rw [if_neg hshort] at hfooter
  by_cases hfits : (footer input.toList).Fits input.size
  · rw [if_pos hfits] at hfooter
    refine ⟨hfits, ?_⟩
    by_cases hsize : maxSize < input.size + (footer input.toList).growth
    · rw [decompress_of_too_large hfooter hsize] at h
      cases h
    · rw [decompress_of_footer hfooter hfits (Nat.not_lt.mp hsize)] at h
      obtain ⟨produced, hproduces, rfl⟩ := map_eq_ok.mp h
      exact ⟨produced, hproduces, rfl⟩
  · rw [if_neg hfits] at hfooter
    rw [decompress_of_footer_error hfooter] at h
    cases h

/-- The verbatim bytes are kept if the tokens produce no more than there is room for. Of what they
produce beyond that, the verbatim bytes are kept exactly if it repeats them from their end down. -/
theorem keepsVerbatim_of_decompress {input output : Bytes}
    (h : Compression.decompress input = .ok output) :
    ∃ produced, Produces input produced ∧
      (produced.length ≤ room input → KeepsVerbatim input output) ∧
      (KeepsVerbatim input output ↔ (produced.drop (room input)).reverse <:+ verbatim input) := by
  obtain ⟨⟨-, -, hregion⟩, produced, hproduces, houtput⟩ := exists_produced_of_decompress h
  have hfit := length_le_of_decode hproduces (Nat.zero_le _)
  have hlength : (verbatim input).length = input.size - (footer input.toList).region := by
    rw [verbatim, List.length_take, Array.length_toList]
    omega
  -- what lies above the verbatim bytes when the decoding begins
  obtain ⟨rest, hrest⟩ : verbatim input <+:
      input.toList ++ List.replicate (footer input.toList).growth 0 :=
    (List.take_prefix _ _).trans (List.prefix_append _ _)
  have hroom : rest.length = room input := by
    have hbuffer := congrArg List.length hrest
    simp only [List.length_append, hlength, Array.length_toList, List.length_replicate] at hbuffer
    rw [room]
    omega
  have hkeeps : KeepsVerbatim input output ↔
      (produced.drop (room input)).reverse <:+ verbatim input := by
    rw [KeepsVerbatim, houtput, ← hrest, ← hlength, ← hroom]
    apply take_overlay_eq_iff
    rw [hroom, hlength, room]
    omega
  refine ⟨produced, hproduces, fun hle => ?_, hkeeps⟩
  rw [hkeeps, List.drop_of_length_le hle]
  exact List.nil_suffix

/-- Three bytes seven times over, after the bytes before them. -/
def repeated (front : List UInt8) : Bytes :=
  (front ++ (List.replicate 7 [0x78, 0x79, 0x7a]).flatten).toArray

/-- Four verbatim bytes, three literals and a copy of 18 bytes, for which there is just room. -/
def filling : Bytes :=
  #[0x48, 0x45, 0x41, 0x44, 0x00, 0xf0, 0x78, 0x79, 0x7a, 0x10, 14, 0, 0, 8, 7, 0, 0, 0]

theorem decompress_filling :
    Compression.decompress filling = .ok (repeated [0x48, 0x45, 0x41, 0x44]) := by
  rw [decompress_of_footer (f := ⟨14, 8, 7⟩) rfl (by decide) (by decide)]
  rfl

theorem keepsVerbatim_filling :
    Compression.decompress filling = .ok (repeated [0x48, 0x45, 0x41, 0x44]) ∧
      KeepsVerbatim filling (repeated [0x48, 0x45, 0x41, 0x44]) := by
  obtain ⟨produced, hproduces, hkeeps, -⟩ := keepsVerbatim_of_decompress decompress_filling
  have hrun : Produces filling (repeated []).toList.reverse := rfl
  obtain rfl := Except.ok.inj (hproduces.symm.trans hrun)
  exact ⟨decompress_filling, hkeeps (by decide)⟩

/-- Eight verbatim bytes and the same tokens, which produce seven bytes more than there is room. -/
def overflowing : Bytes :=
  #[0x56, 0x45, 0x52, 0x42, 0x41, 0x54, 0x49, 0x4d, 0x00, 0xf0, 0x78, 0x79, 0x7a, 0x10, 14, 0, 0,
    8, 0, 0, 0, 0]

/-- Only the first of the verbatim bytes is left. -/
theorem overwritten_verbatim :
    Compression.decompress overflowing = .ok (repeated [0x56]) ∧
      ¬ KeepsVerbatim overflowing (repeated [0x56]) := by
  rw [decompress_of_footer (f := ⟨14, 8, 0⟩) rfl (by decide) (by decide)]
  exact ⟨rfl, by decide⟩

end Cartridge.Compression
