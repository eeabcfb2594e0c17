import Cartridge.Proofs.Compression.Simulation

/-!
# Encoding, and decoding what was encoded

A list of tokens is written in groups of eight behind their flags, and the written stream goes
backwards into the compressed region. Whatever fills the unused flags, the padding and the
bytes below the region, decoding gives back the bytes that the tokens produce.
-/
namespace Cartridge.Compression

open Forward

/-- What one flag announces. -/
inductive Token where
  | literal (byte : UInt8)
  | pair (pair : Pair)
  deriving DecidableEq, Repr

namespace Token

def isPair : Token → Bool
  | literal _ => false
  | pair _ => true

/-- The bytes of a token in the order in which they are read. -/
def bytes : Token → List UInt8
  | literal byte => [byte]
  | pair p =>
    let value := ((p.length - 3) <<< 12) ||| (p.distance - 3)
    [UInt8.ofNat (value / 256), UInt8.ofNat (value % 256)]

/-- The number of bytes that a token produces. -/
def count : Token → Nat
  | literal _ => 1
  | pair p => p.length

/-- Appends what a token produces. -/
def extend (produced : List UInt8) : Token → List UInt8
  | literal byte => produced ++ [byte]
  | pair p => appendCopies p.distance p.length produced

/-- Whether the format has room for a token and the token stays within `available` bytes. -/
def Fits (available : Nat) : Token → Prop
  | literal _ => True
  | pair p => 3 ≤ p.length ∧ p.length ≤ 18 ∧ 3 ≤ p.distance ∧ p.distance ≤ 4098 ∧
      p.distance ≤ available

instance (available : Nat) : DecidablePred (Fits available)
  | literal _ => inferInstanceAs (Decidable True)
  | pair _ => inferInstanceAs (Decidable (_ ∧ _ ∧ _ ∧ _ ∧ _))

@[simp] theorem length_extend (produced : List UInt8) (t : Token) :
    (t.extend produced).length = produced.length + t.count := by
  cases t <;> simp [extend, count]

/-- The two bytes of a pair spell the pair. -/
theorem pairOf_bytes {p : Pair} {available : Nat} (h : (pair p).Fits available) :
    ∃ high low, (pair p).bytes = [high, low] ∧ pairOf high low = p := by
  obtain ⟨hlength, hlengthMax, hdistance, hdistanceMax, _⟩ := h
  refine ⟨_, _, rfl, ?_⟩
  have hvalue : ((p.length - 3) <<< 12) ||| (p.distance - 3) =
      (p.length - 3) * 4096 + (p.distance - 3) := by
    rw [← Nat.shiftLeft_add_eq_or_of_lt (by omega), Nat.shiftLeft_eq]
  rw [hvalue, pairOf_eq, Pair.ofBytes]
  cases p with
  | mk length distance =>
    simp only [UInt8.toNat_ofNat', Pair.mk.injEq] at *
    omega

end Token

/-- What a list of tokens produces after the bytes produced so far. -/
def expand (produced : List UInt8) (tokens : List Token) : List UInt8 :=
  tokens.foldl Token.extend produced

/-- Every pair reaches back to a byte that the tokens before it have produced. -/
def WellFormed : Nat → List Token → Prop
  | _, [] => True
  | available, t :: rest => t.Fits available ∧ WellFormed (available + t.count) rest

instance decideWellFormed : (available : Nat) → DecidablePred (WellFormed available)
  | _, [] => inferInstanceAs (Decidable True)
  | available, t :: rest =>
    have := decideWellFormed (available + t.count) rest
    inferInstanceAs (Decidable (_ ∧ _))

/-- The byte that holds these flags, the first one as its highest bit. -/
def flagByte (flags : List Bool) : UInt8 :=
  UInt8.ofNat (flags.foldl (fun value flag => 2 * value + flag.toNat) 0)

/-- A flag byte and the tokens of its group. Flags that no token needs are free. -/
def groupBytes (unused : Nat → Bool) (group : List Token) : List UInt8 :=
  flagByte (group.map Token.isPair ++ (List.range (8 - group.length)).map unused) ::
    group.flatMap Token.bytes

/-- The stream of a list of tokens, in groups of eight of which only the last may be smaller. -/
def serialize (unused : Nat → Bool) (tokens : List Token) : List UInt8 :=
  if _h : tokens = [] then []
  else groupBytes unused (tokens.take 8) ++ serialize unused (tokens.drop 8)
termination_by tokens.length
decreasing_by
  have := List.length_pos_iff.mpr _h
  rw [List.length_drop]
  omega

theorem flagsOf_flagByte {flags : List Bool} (h : flags.length = 8) :
    flagsOf (flagByte flags) = flags := by
  have hall : ∀ a b c d e f g i : Bool,
      flagsOf (flagByte [a, b, c, d, e, f, g, i]) = [a, b, c, d, e, f, g, i] := by
    decide +kernel
  match flags, h with
  | [a, b, c, d, e, f, g, i], _ => exact hall a b c d e f g i

theorem length_expand_le (produced : List UInt8) (tokens : List Token) :
    produced.length ≤ (expand produced tokens).length := by
  induction tokens generalizing produced with
  | nil => exact Nat.le_refl _
  | cons t rest ih =>
    have h := ih (t.extend produced)
    rw [Token.length_extend] at h
    exact Nat.le_trans (Nat.le_add_right _ _) h

theorem expand_append (produced : List UInt8) (front back : List Token) :
    expand produced (front ++ back) = expand (expand produced front) back :=
  List.foldl_append

theorem wellFormed_append {produced : List UInt8} {front back : List Token}
    (h : WellFormed produced.length (front ++ back)) :
    WellFormed produced.length front ∧ WellFormed (expand produced front).length back := by
  induction front generalizing produced with
  | nil => exact ⟨trivial, h⟩
  | cons t rest ih =>
    obtain ⟨ht, hrest⟩ := h
    rw [← Token.length_extend] at hrest
    obtain ⟨hfront, hback⟩ := ih hrest
    rw [Token.length_extend] at hfront
    exact ⟨⟨ht, hfront⟩, hback⟩

section Decode

variable {capacity stop : Nat}

/-- The tokens of a group are decoded one after the other. -/
theorem decode_group {produced : List UInt8} (group : List Token) (flags : List Bool)
    (rest : List UInt8) (hvalid : WellFormed produced.length group)
    (hroom : (expand produced group).length ≤ capacity) :
    decode capacity stop (group.map Token.isPair ++ flags) (group.flatMap Token.bytes ++ rest)
      produced = decode capacity stop flags rest (expand produced group) := by
  induction group generalizing produced with
  | nil => rfl
  | cons t group ih =>
    obtain ⟨ht, hgroup⟩ := hvalid
    rw [← Token.length_extend] at hgroup
    have hnext := ih hgroup hroom
    have hle := length_expand_le (t.extend produced) group
    have hfit : (t.extend produced).length ≤ capacity := Nat.le_trans hle hroom
    rw [Token.length_extend] at hfit
    cases t with
    | literal byte =>
      simp only [Token.count] at hfit
      simp only [List.map_cons, List.flatMap_cons, Token.isPair, Token.bytes, List.cons_append,
        List.nil_append, decode]
      rw [if_neg (by omega)]
      exact hnext
    | pair p =>
      obtain ⟨high, low, hbytes, hpair⟩ := Token.pairOf_bytes ht
      have hback := ht.2.2.2.2
      simp only [Token.count] at hfit
      simp only [List.map_cons, List.flatMap_cons, Token.isPair, hbytes, List.cons_append,
        List.nil_append, decode, hpair]
      rw [if_neg (by omega), if_neg (by omega)]
      exact hnext

/-- The stream of well-formed tokens decodes to what they produce. -/
theorem decode_serialize {produced : List UInt8} (unused : Nat → Bool) (tokens : List Token)
    (hvalid : WellFormed produced.length tokens)
    (hroom : (expand produced tokens).length ≤ capacity) :
    decode capacity stop [] (serialize unused tokens) produced = .ok (expand produced tokens) := by
  induction tokens using serialize.induct generalizing produced with
  | case1 => simp [serialize, decode, expand]
  | case2 tokens hne ih =>
    have hsplit := List.take_append_drop 8 tokens
    rw [← hsplit] at hvalid hroom
    obtain ⟨hfront, hback⟩ := wellFormed_append hvalid
    rw [expand_append] at hroom
    have hgroupRoom := Nat.le_trans (length_expand_le _ _) hroom
    have hrest := ih hback hroom
    have hflags : ((tokens.take 8).map Token.isPair ++
        (List.range (8 - (tokens.take 8).length)).map unused).length = 8 := by
      simp only [List.length_append, List.length_map, List.length_range, List.length_take]
      omega
    rw [serialize, dif_neg hne, groupBytes, List.cons_append, decode, flagsOf_flagByte hflags,
      decode_group _ _ _ hfront hgroupRoom]
    cases hdrop : tokens.drop 8 with
    | nil =>
      rw [hdrop, List.append_nil] at hsplit
      simp [serialize, decode, hsplit]
    | cons t rest =>
      -- Tokens are left, so the group is full and no flag of it is free.
      have hfull : 8 - (tokens.take 8).length = 0 := by
        have hlen := congrArg List.length hdrop
        rw [List.length_drop, List.length_cons] at hlen
        rw [List.length_take]
        omega
      rw [hfull, List.range_zero, List.map_nil, ← hdrop, hrest, ← expand_append, hsplit]

end Decode

namespace Footer

/-- The eight bytes of a footer. -/
def toBytes (f : Footer) : List UInt8 := octets 3 f.region ++ octets 1 f.skip ++ octets 4 f.growth

@[simp] theorem length_toBytes (f : Footer) : f.toBytes.length = 8 := by simp [toBytes]

/-- A footer whose numbers fit their fields is read back from the end of an input. -/
theorem footer_append (body : List UInt8) {f : Footer} (hregion : f.region < 2 ^ 24)
    (hskip : f.skip < 2 ^ 8) (hgrowth : f.growth < 2 ^ 32) :
    Forward.footer (body ++ f.toBytes) = f := by
  have hlen : (body ++ f.toBytes).length = body.length + 8 := by simp
  have hlast : (body ++ f.toBytes).drop (body.length + 4) = octets 4 f.growth := by
    simp [toBytes, List.drop_append, octets]
  have hfirst : ((body ++ f.toBytes).drop body.length).take 3 = octets 3 f.region := by
    simp [toBytes, octets]
  have hthird : (body ++ f.toBytes).getD (body.length + 3) 0 = UInt8.ofNat f.skip := by
    simp [toBytes, octets]
  rw [Forward.footer, hlen, show body.length + 8 - 4 = body.length + 4 by omega,
    show body.length + 8 - 5 = body.length + 3 by omega, Nat.add_sub_cancel, hlast, hfirst, hthird]
  cases f with
  | mk region skip growth =>
    simp only [littleEndian_octets, UInt8.toNat_ofNat', Footer.mk.injEq] at *
    omega

end Footer

/-- The footer of a stream of `length` bytes behind which `padding` bytes lie, and which produces
`produced` bytes. -/
def footerOf (length padding produced : Nat) : Footer where
  region := length + padding + 8
  skip := padding + 8
  growth := produced - (length + padding + 8)

/-- A compressed string: the bytes that are not compressed, the stream turned around, padding
and a footer. -/
def pack (verbatim padding : List UInt8) (unused : Nat → Bool) (tokens : List Token) : Bytes :=
  let stream := serialize unused tokens
  let f := footerOf stream.length padding.length (expand [] tokens).length
  (verbatim ++ stream.reverse ++ padding ++ f.toBytes).toArray

section Pack

variable {verbatim padding : List UInt8} {unused : Nat → Bool} {tokens : List Token}

theorem toList_pack :
    (pack verbatim padding unused tokens).toList =
      verbatim ++ (serialize unused tokens).reverse ++ padding ++
        (footerOf (serialize unused tokens).length padding.length
          (expand [] tokens).length).toBytes := rfl

theorem size_pack :
    (pack verbatim padding unused tokens).size =
      verbatim.length + ((serialize unused tokens).length + padding.length + 8) := by
  rw [← Array.length_toList, toList_pack]
  simp only [List.length_append, List.length_reverse, Footer.length_toBytes]
  omega

/-- Between verbatim bytes and padding lies the stream. -/
theorem stream_append (verbatim stream padding last : List UInt8) (hlast : last.length = 8) :
    Forward.stream (verbatim ++ stream.reverse ++ padding ++ last)
      (stream.length + padding.length + 8) (padding.length + 8) = stream := by
  have hstart : (verbatim ++ stream.reverse ++ padding ++ last).length -
      (stream.length + padding.length + 8) = verbatim.length := by
    simp only [List.length_append, List.length_reverse]
    omega
  have hlen : stream.length + padding.length + 8 - (padding.length + 8) =
      stream.reverse.length := by
    rw [List.length_reverse]
    omega
  rw [Forward.stream, hstart, hlen, List.append_assoc, List.append_assoc, List.drop_left,
    List.take_left, List.reverse_reverse]

/-- Laying `produced` over the end of a buffer of which it leaves `front`. -/
theorem overlay_append {front rest produced : List UInt8} (h : rest.length = produced.length) :
    overlay (front ++ rest) produced = front ++ produced.reverse := by
  rw [overlay, List.length_append, h, Nat.add_sub_cancel, List.take_left]

theorem fits_pack : (footerOf (serialize unused tokens).length padding.length
    (expand [] tokens).length).Fits (pack verbatim padding unused tokens).size := by
  rw [size_pack]
  refine ⟨?_, ?_, ?_⟩ <;> simp only [footerOf, footerSize] <;> omega

theorem ofInput_pack (hpadding : padding.length ≤ 247)
    (hregion : (serialize unused tokens).length + padding.length + 8 < 2 ^ 24)
    (hsize : verbatim.length + (expand [] tokens).length ≤ maxSize) :
    Footer.ofInput (pack verbatim padding unused tokens) =
      .ok (footerOf (serialize unused tokens).length padding.length (expand [] tokens).length) := by
  rw [maxSize] at hsize
  have hfooter : Forward.footer (pack verbatim padding unused tokens).toList =
      footerOf (serialize unused tokens).length padding.length (expand [] tokens).length := by
    rw [toList_pack]
    apply Footer.footer_append <;> simp only [footerOf] <;> omega
  rw [Footer.ofInput_eq, hfooter, if_neg (by rw [size_pack]; omega), if_pos fits_pack]

/-- A packed string grows to the verbatim bytes and what the tokens produce. -/
theorem size_pack_add_growth (verbatim : List UInt8)
    (hgrowth : (serialize unused tokens).length + padding.length + 8 ≤ (expand [] tokens).length) :
    (pack verbatim padding unused tokens).size +
        (footerOf (serialize unused tokens).length padding.length
          (expand [] tokens).length).growth =
      verbatim.length + (expand [] tokens).length := by
  simp only [size_pack, footerOf]
  omega

/-- Decoding undoes encoding, and the declared size is that of the result. -/
theorem decompress_pack (hvalid : WellFormed 0 tokens) (hpadding : padding.length ≤ 247)
    (hregion : (serialize unused tokens).length + padding.length + 8 < 2 ^ 24)
    (hsize : verbatim.length + (expand [] tokens).length ≤ 0x10000000)
    (hgrowth : (serialize unused tokens).length + padding.length + 8 ≤ (expand [] tokens).length) :
    Compression.decompress (pack verbatim padding unused tokens) =
        .ok (verbatim ++ (expand [] tokens).reverse).toArray ∧
      decompressedSize (pack verbatim padding unused tokens) =
        .ok (verbatim.length + (expand [] tokens).length) := by
  have hfooter := ofInput_pack hpadding hregion hsize
  have hsum := size_pack_add_growth verbatim hgrowth
  have hgranted := Nat.le_trans (Nat.le_of_eq hsum) hsize
  constructor
  · have hdecode (stop : Nat) : decode (verbatim.length + (expand [] tokens).length) stop []
        (serialize unused tokens) [] = .ok (expand [] tokens) :=
      decode_serialize unused tokens hvalid (Nat.le_add_left _ _)
    rw [decompress_of_footer hfooter fits_pack hgranted, hsum, toList_pack, footerOf,
      stream_append _ _ _ _ (Footer.length_toBytes _), hdecode]
    simp only [Except.map, Except.ok.injEq, List.append_assoc]
    rw [overlay_append]
    simp only [List.length_append, List.length_reverse, List.length_replicate,
      Footer.length_toBytes]
    omega
  · rw [decompressedSize, hfooter]
    exact (declaredSize_of_le hgranted).trans (congrArg _ hsum)

/-- Nine tokens in two groups, the second with seven free flags; their pairs are the shortest and
the longest, and reach back to the first byte. -/
def twoGroups : List Token :=
  [.literal 0x78, .literal 0x79, .literal 0x7a, .pair ⟨18, 3⟩, .pair ⟨3, 21⟩, .pair ⟨18, 4⟩,
    .pair ⟨18, 42⟩, .literal 0x21, .literal 0x22]

theorem decompress_pack_twoGroups :
    (WellFormed 0 twoGroups ∧ (serialize (· == 0) twoGroups).length = 15 ∧
        (expand [] twoGroups).length = 62) ∧
      Compression.decompress (pack [0x48] [0xaa, 0xbb] (· == 0) twoGroups) =
        .ok ([0x48] ++ (expand [] twoGroups).reverse).toArray ∧
      decompressedSize (pack [0x48] [0xaa, 0xbb] (· == 0) twoGroups) = .ok 63 := by
  have hvalid : WellFormed 0 twoGroups := by decide
  have hstream : (serialize (· == 0) twoGroups).length = 15 := by
    simp [twoGroups, serialize, groupBytes, Token.bytes]
  have hproduced : (expand [] twoGroups).length = 62 := by decide
  exact ⟨⟨hvalid, hstream, hproduced⟩, decompress_pack hvalid (by decide) (by simp [hstream])
    (by simp [hproduced]) (by simp [hstream, hproduced])⟩

end Pack

end Cartridge.Compression
