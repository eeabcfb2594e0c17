import Cartridge.Proofs.Storage.Ranges

/-!
# Copying into any writer

A range is copied chunk by chunk. The writer may take as few bytes of each offer as it likes, so
long as it takes some while it has room. Two things end a copy early: the file ends within a chunk,
of which nothing is passed on then, or the writer has no room for all of a chunk that was read.
Whichever comes first decides what the writer has received.
-/
namespace Cartridge

/-- A writer takes some of the bytes that it is offered as long as it has room, and none after
that, when it may also fail. -/
structure Writer (State : Type) where
  /-- How many bytes the writer still takes. -/
  room : State → Nat
  /-- How many of the bytes are taken, and what the writer is after that. -/
  offer : State → List UInt8 → Except StorageFault (Nat × State)
  offer_of_room : ∀ s bytes, 0 < room s → bytes ≠ [] →
    ∃ n next, offer s bytes = .ok (n, next) ∧ 0 < n ∧ n ≤ bytes.length ∧ room next + n = room s
  offer_of_full : ∀ s bytes n next, room s = 0 → offer s bytes = .ok (n, next) → n = 0

namespace Writer

variable {State : Type}

/-- Offers bytes, and what was not taken again, until all of them are taken. The second part of the
answer are the bytes that were. -/
def writeAll (w : Writer State) (s : State) (bytes : List UInt8) :
    Except StorageFault State × List UInt8 :=
  if _h : bytes = [] then (.ok s, [])
  else
    match w.offer s bytes with
    | .error fault => (.error fault, [])
    | .ok (0, _) => (.error .writerFull, [])
    | .ok (n + 1, next) =>
      let rest := w.writeAll next (bytes.drop (n + 1))
      (rest.1, bytes.take (n + 1) ++ rest.2)
termination_by bytes.length
decreasing_by
  have hsome := List.length_pos_iff.mpr _h
  rw [List.length_drop]
  omega

/-- Copies a range from a position on. -/
def copyFrom (w : Writer State) (fs : FileSystem) (r : FileRange) (position : Nat) (s : State) :
    Except RangeError Nat × List UInt8 :=
  if _h : position < r.size.toNat then
    let length := min (r.size.toNat - position) FileRange.chunkSize
    match r.readAt fs (UInt64.ofNat position) length with
    | .error e => (.error e, [])
    | .ok bytes =>
      match w.writeAll s bytes.toList with
      | (.error fault, received) => (.error (.sink fault), received)
      | (.ok next, received) =>
        let rest := w.copyFrom fs r (position + length) next
        (rest.1, received ++ rest.2)
  else (.ok position, [])
termination_by r.size.toNat - position
decreasing_by
  have : 0 < FileRange.chunkSize := by decide
  omega

variable {w : Writer State}

/-- Bytes for which there is room are all taken, however few at a time. -/
theorem writeAll_of_room (s : State) (bytes : List UInt8) (h : bytes.length ≤ w.room s) :
    ∃ next, w.writeAll s bytes = (.ok next, bytes) ∧ w.room next + bytes.length = w.room s := by
  rw [writeAll]
  by_cases hnone : bytes = []
  · subst hnone
    exact ⟨s, rfl, rfl⟩
  · have hsome := List.length_pos_iff.mpr hnone
    obtain ⟨n, next, hoffer, hn, hle, hroom⟩ := w.offer_of_room s bytes (by omega) hnone
    obtain ⟨n, rfl⟩ := Nat.exists_eq_succ_of_ne_zero (Nat.ne_of_gt hn)
    have hlength := List.length_drop (l := bytes) (i := n + 1)
    obtain ⟨last, hwrite, hlast⟩ := writeAll_of_room next (bytes.drop (n + 1)) (by omega)
    refine ⟨last, ?_, by omega⟩
    rw [dif_neg hnone, hoffer]
    dsimp only
    rw [hwrite, List.take_append_drop]
termination_by bytes.length

/-- Of bytes for which there is not enough room, the first are taken. -/
theorem writeAll_of_full (s : State) (bytes : List UInt8) (h : w.room s < bytes.length) :
    ∃ fault, w.writeAll s bytes = (.error fault, bytes.take (w.room s)) := by
  have hnone : bytes ≠ [] := List.length_pos_iff.mp (by omega)
  rw [writeAll, dif_neg hnone]
  by_cases hfull : w.room s = 0
  · rw [hfull, List.take_zero]
    cases hoffer : w.offer s bytes with
    | error fault => exact ⟨fault, rfl⟩
    | ok answer =>
      obtain ⟨n, next⟩ := answer
      obtain rfl := w.offer_of_full s bytes n next hfull hoffer
      exact ⟨.writerFull, rfl⟩
  · obtain ⟨n, next, hoffer, hn, hle, hroom⟩ :=
      w.offer_of_room s bytes (Nat.pos_of_ne_zero hfull) hnone
    obtain ⟨n, rfl⟩ := Nat.exists_eq_succ_of_ne_zero (Nat.ne_of_gt hn)
    have hlength := List.length_drop (l := bytes) (i := n + 1)
    obtain ⟨fault, hwrite⟩ := writeAll_of_full next (bytes.drop (n + 1)) (by omega)
    refine ⟨fault, ?_⟩
    rw [hoffer]
    dsimp only
    rw [hwrite, ← List.take_add, show n + 1 + w.room next = w.room s by omega]
termination_by bytes.length

end Writer

namespace Sink

/-- A sink takes as much of every offer as it has room for. -/
def writer : Writer Sink where
  room s := s.limit - s.received.size
  offer s bytes := .ok (s.accept bytes.toArray)
  offer_of_room s bytes hroom hnone := by
    have hsome := List.length_pos_iff.mpr hnone
    refine ⟨_, _, rfl, ?_⟩
    simp only [Array.size_append, Array.size_extract, List.size_toArray]
    omega
  offer_of_full s bytes n next hfull hoffer := by
    obtain ⟨rfl, -⟩ := Prod.mk.inj (Except.ok.inj hoffer)
    omega

section

variable {s taken : Sink} {bytes : Bytes} {count : Nat}

theorem eq_of_accept (h : s.accept bytes = (count, taken)) :
    count = min bytes.size (s.limit - s.received.size) ∧ taken.limit = s.limit ∧
      taken.received = s.received ++ bytes.extract 0 count := by
  cases h
  exact ⟨rfl, rfl, rfl⟩

theorem writer_offer (h : s.accept bytes = (count, taken)) :
    writer.offer s bytes.toList = .ok (count, taken) := congrArg Except.ok h

/-- A full sink is offered bytes once. -/
theorem writeAll_of_full (bytes : Bytes) (h : s.limit ≤ s.received.size)
    (hnone : bytes.toList ≠ []) :
    writer.writeAll s bytes.toList = (.error .writerFull, []) ∧
      (s.accept bytes).2.received = s.received := by
  cases haccept : s.accept bytes with
  | mk count taken =>
    obtain ⟨hcount, -, hreceived⟩ := eq_of_accept haccept
    obtain rfl : count = 0 := by omega
    rw [Writer.writeAll, dif_neg hnone, writer_offer haccept]
    exact ⟨rfl, by simpa using hreceived⟩

end

/-- Two offers at most are needed: after the first, all bytes are taken or the sink is full. -/
theorem writeAll_writer (s : Sink) (bytes : Bytes) :
    (∃ taken, s.write bytes = (true, taken) ∧
      writer.writeAll s bytes.toList = (.ok taken, bytes.toList) ∧
      taken.received.toList = s.received.toList ++ bytes.toList) ∨
    (∃ taken received, s.write bytes = (false, taken) ∧
      writer.writeAll s bytes.toList = (.error .writerFull, received) ∧
      taken.received.toList = s.received.toList ++ received) := by
  by_cases hnone : bytes.size = 0
  · obtain rfl := Array.eq_empty_of_size_eq_zero hnone
    refine .inl ⟨s, if_pos rfl, ?_, (List.append_nil _).symm⟩
    rw [Writer.writeAll, dif_pos rfl]
  have hsome : bytes.toList ≠ [] := by simpa using hnone
  cases haccept : s.accept bytes with
  | mk count taken =>
    obtain ⟨hcount, hlimit, hreceived⟩ := eq_of_accept haccept
    have hwrite : s.write bytes =
        if count = bytes.size then (true, taken)
        else if count = 0 then (false, taken)
        else (false, (taken.accept (bytes.extract count bytes.size)).2) := by
      rw [write, if_neg hnone, haccept]
    cases count with
    | zero =>
      obtain ⟨hfull, -⟩ := writeAll_of_full bytes (by omega : s.limit ≤ s.received.size) hsome
      rw [if_neg (Ne.symm hnone), if_pos rfl] at hwrite
      exact .inr ⟨taken, [], hwrite, hfull, by simp [hreceived]⟩
    | succ n =>
      have hoffers : writer.writeAll s bytes.toList =
          ((writer.writeAll taken (bytes.toList.drop (n + 1))).1, bytes.toList.take (n + 1) ++
            (writer.writeAll taken (bytes.toList.drop (n + 1))).2) := by
        rw [Writer.writeAll, dif_neg hsome, writer_offer haccept]
      by_cases hall : n + 1 = bytes.size
      · have hempty : bytes.toList.drop (n + 1) = [] := by simp [hall]
        have hdone : writer.writeAll taken [] = (.ok taken, []) := by
          rw [Writer.writeAll, dif_pos rfl]
        rw [if_pos hall] at hwrite
        have hwhole : bytes.toList.take (n + 1) = bytes.toList :=
          List.take_of_length_le (by simp [hall])
        rw [hempty, hdone, List.append_nil, hwhole] at hoffers
        exact .inl ⟨taken, hwrite, hoffers, by simp [hreceived, hall]⟩
      · have hrest : (bytes.extract (n + 1) bytes.size).toList = bytes.toList.drop (n + 1) := by
          rw [Array.toList_extract, List.extract_eq_take_drop, List.take_of_length_le (by simp)]
        have hroom : taken.limit ≤ taken.received.size := by
          rw [hlimit, hreceived, Array.size_append, Array.size_extract]
          omega
        have hmore : (bytes.extract (n + 1) bytes.size).toList ≠ [] := by
          rw [hrest, ne_eq, List.drop_eq_nil_iff, Array.length_toList]
          omega
        obtain ⟨hfull, hkept⟩ := writeAll_of_full _ hroom hmore
        rw [if_neg hall, if_neg (Nat.succ_ne_zero n)] at hwrite
        rw [← hrest, hfull, List.append_nil] at hoffers
        exact .inr ⟨_, _, hwrite, hoffers, by simp [hkept, hreceived]⟩

/-- The copy into a sink is the one into its writer. -/
theorem copyFrom_writer (fs : FileSystem) (r : FileRange) (position : Nat) (s : Sink) :
    (r.copyFrom fs position s).1 = (writer.copyFrom fs r position s).1 ∧
      (r.copyFrom fs position s).2.received.toList =
        s.received.toList ++ (writer.copyFrom fs r position s).2 := by
  rw [FileRange.copyFrom_eq, Writer.copyFrom]
  by_cases hwithin : position < r.size.toNat
  · have hchunk : 0 < FileRange.chunkSize := by decide
    rw [if_pos hwithin, dif_pos hwithin]
    dsimp only
    generalize hlength : min (r.size.toNat - position) FileRange.chunkSize = length
    have hsome : 0 < length := by omega
    cases r.readAt fs (UInt64.ofNat position) length with
    | error e => exact ⟨rfl, (List.append_nil _).symm⟩
    | ok bytes =>
      dsimp only
      obtain ⟨taken, hwrite, hwriter, hreceived⟩ | ⟨taken, received, hwrite, hwriter, hreceived⟩ :=
        writeAll_writer s bytes
      · obtain ⟨houtcome, hrest⟩ := copyFrom_writer fs r (position + length) taken
        rw [hwrite, hwriter]
        refine ⟨houtcome, ?_⟩
        dsimp only
        rw [hrest, hreceived, List.append_assoc]
      · rw [hwrite, hwriter]
        exact ⟨rfl, hreceived⟩
  · rw [if_neg hwithin, dif_neg hwithin]
    exact ⟨rfl, (List.append_nil _).symm⟩
termination_by r.size.toNat - position
decreasing_by omega

end Sink

namespace FileRange

variable {fs : FileSystem} {r : FileRange}

/-- The bytes of the file from the start of the range on. -/
def bytesFrom (fs : FileSystem) (r : FileRange) : List UInt8 :=
  (fs.bytesBehind r.file).drop r.offset.toNat

/-- How many bytes of the range are read before the file ends: all of them, or those of the whole
chunks that are there. -/
def reach (fs : FileSystem) (r : FileRange) : Nat :=
  if r.size.toNat ≤ (bytesFrom fs r).length then r.size.toNat
  else chunkSize * ((bytesFrom fs r).length / chunkSize)

/-- How a copy ends for a writer that takes `room` bytes of the range. -/
def Ends (fs : FileSystem) (r : FileRange) (room : Nat) (outcome : Except RangeError Nat) : Prop :=
  if room < reach fs r then ∃ fault, outcome = .error (.sink fault)
  else if reach fs r = r.size.toNat then outcome = .ok r.size.toNat
  else ∃ place n fault, outcome = .error (.file (.shortRead place n fault))

theorem reach_le_size (fs : FileSystem) (r : FileRange) : reach fs r ≤ r.size.toNat := by
  unfold reach chunkSize
  split <;> omega

theorem reach_le_length (fs : FileSystem) (r : FileRange) :
    reach fs r ≤ (bytesFrom fs r).length := by
  unfold reach chunkSize
  split <;> omega

theorem length_bytesFrom (fs : FileSystem) (r : FileRange) :
    (bytesFrom fs r).length = (fs.bytesBehind r.file).length - r.offset.toNat := List.length_drop

/-- All of a range is read exactly if the file has all of it. -/
theorem reach_eq_size_iff (fs : FileSystem) (r : FileRange) : reach fs r = r.size.toNat ↔
    r.size.toNat = 0 ∨ r.offset.toNat + r.size.toNat ≤ (fs.bytesBehind r.file).length := by
  have hlength := length_bytesFrom fs r
  unfold reach chunkSize
  split <;> omega

/-- A byte that is reached is in a chunk that is there. -/
theorem chunk_of_lt_reach {room : Nat} (h : room < reach fs r) :
    r.offset.toNat + min r.size.toNat (chunkSize * (room / chunkSize + 1)) ≤
      (fs.bytesBehind r.file).length := by
  have hlength := length_bytesFrom fs r
  unfold reach at h
  unfold chunkSize at *
  split at h <;> omega

/-- If the file ends first, whole chunks are reached, and the next one is not there. -/
theorem reach_of_ended (h : reach fs r ≠ r.size.toNat) : ∃ chunks,
    reach fs r = chunkSize * chunks ∧
    (∀ i < chunks, r.offset.toNat + chunkSize * (i + 1) ≤ (fs.bytesBehind r.file).length) ∧
    (fs.bytesBehind r.file).length <
      r.offset.toNat + min r.size.toNat (chunkSize * (chunks + 1)) := by
  have hlength := length_bytesFrom fs r
  unfold reach at *
  by_cases hall : r.size.toNat ≤ (bytesFrom fs r).length
  · rw [if_pos hall] at h
    exact absurd rfl h
  · rw [if_neg hall] at h ⊢
    refine ⟨_, rfl, fun i hi => ?_, ?_⟩
    · unfold chunkSize at *
      omega
    · unfold chunkSize
      omega

section Chunk

variable {position : Nat} (hwhole : chunkSize ∣ position) (hwithin : position < r.size.toNat)
include hwhole hwithin

/-- A chunk that is there is read before the file ends. -/
theorem chunk_le_reach
    (h : position + min (r.size.toNat - position) chunkSize ≤ (bytesFrom fs r).length) :
    position + min (r.size.toNat - position) chunkSize ≤ reach fs r := by
  obtain ⟨chunks, rfl⟩ := hwhole
  unfold reach chunkSize at *
  split <;> omega

/-- At a chunk that is not there the file has ended. -/
theorem reach_le_of_missing
    (h : ¬position + min (r.size.toNat - position) chunkSize ≤ (bytesFrom fs r).length) :
    reach fs r ≤ position := by
  obtain ⟨chunks, rfl⟩ := hwhole
  unfold reach chunkSize at *
  split <;> omega

end Chunk

section Copy

variable (hlow : r.offset.toNat + r.size.toNat < 2 ^ 64)
  (hfile : (fs.bytesBehind r.file).length ≤ 2 ^ 63) {State : Type} {w : Writer State}
include hlow hfile

/-- What is read of a range at a position. -/
theorem readAt_of_le_length {position length : Nat} (hin : position + length ≤ r.size.toNat)
    (hsome : 0 < length) (h : position + length ≤ (bytesFrom fs r).length) :
    r.readAt fs (UInt64.ofNat position) length =
      .ok (((bytesFrom fs r).drop position).take length).toArray := by
  have hnumber : (UInt64.ofNat position).toNat = position := by
    rw [UInt64.toNat_ofNat']
    omega
  rw [bytesFrom, List.length_drop] at h
  rw [readAt_of_present hfile (by omega) (by omega) hsome (by omega), hnumber, bytesFrom,
    List.drop_drop]

theorem readAt_of_length_lt {position length : Nat} (hin : position + length ≤ r.size.toNat)
    (hsome : 0 < length) (h : ¬position + length ≤ (bytesFrom fs r).length) :
    ∃ place fault, r.readAt fs (UInt64.ofNat position) length =
      .error (.file (.shortRead place length fault)) := by
  have hnumber : (UInt64.ofNat position).toNat = position := by
    rw [UInt64.toNat_ofNat']
    omega
  rw [bytesFrom, List.length_drop] at h
  exact readAt_of_missing hfile (by omega) (by omega) hsome (by omega)

/-- One turn of the loop: a chunk that is there and for which there is room is passed on, one for
which there is no room fills the writer, and one that is not there ends the copy. -/
theorem copyFrom_turn (w : Writer State) (position length : Nat) (s : State)
    (hwhole : chunkSize ∣ position) (hwithin : position < r.size.toNat)
    (hlength : min (r.size.toNat - position) chunkSize = length) :
    (position + length ≤ reach fs r ∧ ∃ next, w.room next + length = w.room s ∧
      w.copyFrom fs r position s = ((w.copyFrom fs r (position + length) next).1,
        ((bytesFrom fs r).drop position).take length ++
          (w.copyFrom fs r (position + length) next).2)) ∨
    (position + length ≤ reach fs r ∧ w.room s < length ∧ ∃ fault,
      w.copyFrom fs r position s =
        (.error (.sink fault), ((bytesFrom fs r).drop position).take (w.room s))) ∨
    (reach fs r ≤ position ∧ ∃ place fault,
      w.copyFrom fs r position s = (.error (.file (.shortRead place length fault)), [])) := by
  have hchunk : 0 < chunkSize := by decide
  have hsome : 0 < length := by omega
  rw [Writer.copyFrom, dif_pos hwithin, hlength]
  dsimp only
  by_cases hpresent : position + length ≤ (bytesFrom fs r).length
  · have hread := readAt_of_le_length hlow hfile (by omega) hsome hpresent
    have hbytes : (((bytesFrom fs r).drop position).take length).length = length := by
      rw [List.length_take, List.length_drop]
      omega
    have hnext : position + length ≤ reach fs r := by
      rw [← hlength] at hpresent ⊢
      exact chunk_le_reach hwhole hwithin hpresent
    rw [hread]
    dsimp only
    by_cases hroom : length ≤ w.room s
    · rw [← hbytes] at hroom
      obtain ⟨next, hwrite, hrest⟩ := Writer.writeAll_of_room s _ hroom
      rw [hbytes] at hrest
      rw [hwrite]
      exact .inl ⟨hnext, next, hrest, rfl⟩
    · have hfull := Nat.not_le.mp hroom
      rw [← hbytes] at hfull
      obtain ⟨fault, hwrite⟩ := Writer.writeAll_of_full s _ hfull
      rw [hwrite, List.take_take, Nat.min_eq_left (by omega)]
      exact .inr (.inl ⟨hnext, by omega, fault, rfl⟩)
  · obtain ⟨place, fault, hread⟩ := readAt_of_length_lt hlow hfile (by omega) hsome hpresent
    rw [← hlength] at hpresent
    rw [hread]
    exact .inr (.inr ⟨reach_le_of_missing hwhole hwithin hpresent, place, fault, rfl⟩)

/-- What a copy from a position on passes on, and how it ends. -/
theorem copyFrom_ends (position : Nat) (s : State)
    (hwhole : position < r.size.toNat → chunkSize ∣ position) (hreached : position ≤ reach fs r) :
    (w.copyFrom fs r position s).2 =
        ((bytesFrom fs r).drop position).take (min (w.room s) (reach fs r - position)) ∧
      Ends fs r (position + w.room s) (w.copyFrom fs r position s).1 := by
  have hreach := reach_le_size fs r
  by_cases hwithin : position < r.size.toNat
  · have hchunk : 0 < chunkSize := by decide
    have hdvd := hwhole hwithin
    obtain ⟨length, hlength⟩ : ∃ length, min (r.size.toNat - position) chunkSize = length :=
      ⟨_, rfl⟩
    have hsome : 0 < length := by omega
    obtain ⟨hnext, next, hroom, hcopy⟩ | ⟨hnext, hfull, fault, hcopy⟩ |
      ⟨hended, place, fault, hcopy⟩ :=
      copyFrom_turn hlow hfile w position length s hdvd hwithin hlength
    · -- only the last chunk is shorter, so until then the position is a whole number of them
      have hmore : position + length < r.size.toNat → chunkSize ∣ position + length := by
        intro hmore
        have hfull : length = chunkSize := by omega
        rw [hfull]
        exact Nat.dvd_add hdvd (Nat.dvd_refl chunkSize)
      obtain ⟨hreceived, hends⟩ := copyFrom_ends (position + length) next hmore hnext
      rw [show position + length + w.room next = position + w.room s by omega] at hends
      rw [hcopy]
      dsimp only
      rw [hreceived, ← List.drop_drop, ← List.take_add]
      refine ⟨?_, hends⟩
      congr 1
      omega
    · rw [hcopy, Ends, if_pos (by omega), Nat.min_eq_left (by omega)]
      exact ⟨rfl, fault, rfl⟩
    · rw [hcopy, Ends, if_neg (by omega), if_neg (by omega), Nat.sub_eq_zero_of_le hended,
        Nat.min_zero, List.take_zero]
      exact ⟨rfl, place, length, fault, rfl⟩
  · rw [Writer.copyFrom, dif_neg hwithin, Ends, if_neg (by omega), if_pos (by omega),
      Nat.sub_eq_zero_of_le (by omega), Nat.min_zero, List.take_zero]
    exact ⟨rfl, congrArg Except.ok (by omega)⟩
termination_by r.size.toNat - position
decreasing_by omega

/-- What a copy into a writer that takes `room` bytes in all is to answer, and what the writer is to
have received then. -/
structure Copied (fs : FileSystem) (r : FileRange) (room : Nat) (outcome : Except RangeError Nat)
    (received : List UInt8) : Prop where
  ok_iff : (∃ n, outcome = .ok n) ↔ r.size.toNat = 0 ∨
    (r.offset.toNat + r.size.toNat ≤ (fs.bytesBehind r.file).length ∧ r.size.toNat ≤ room)
  of_ok : ∀ n, outcome = .ok n → n = r.size.toNat ∧
    received = (bytesFrom fs r).take r.size.toNat ∧
    r.readAt fs 0 r.size.toNat = .ok received.toArray
  received_prefix : received <+: (bytesFrom fs r).take r.size.toNat
  /-- Either the writer has taken all that it takes, and the chunk in which it stopped is there, or
  it has received whole chunks that are there, and the next one is not. -/
  of_error : ∀ e, outcome = .error e →
    ((∃ fault, e = .sink fault) ∧ received.length = room ∧ room < r.size.toNat ∧
      r.offset.toNat + min r.size.toNat (chunkSize * (room / chunkSize + 1)) ≤
        (fs.bytesBehind r.file).length) ∨
    ((∃ place n fault, e = .file (.shortRead place n fault)) ∧ ∃ chunks,
      received.length = chunkSize * chunks ∧ received.length ≤ room ∧
      received.length < r.size.toNat ∧
      (∀ i < chunks,
        r.offset.toNat + chunkSize * (i + 1) ≤ (fs.bytesBehind r.file).length) ∧
      (fs.bytesBehind r.file).length <
        r.offset.toNat + min r.size.toNat (chunkSize * (chunks + 1)))

theorem copied_of_ends {room : Nat} {outcome : Except RangeError Nat} {received : List UInt8}
    (hreceived : received = (bytesFrom fs r).take (min room (reach fs r)))
    (hends : Ends fs r room outcome) : Copied fs r room outcome received := by
  have hreach := reach_le_size fs r
  have hcount : received.length = min room (reach fs r) := by
    have hthere := reach_le_length fs r
    rw [hreceived, List.length_take]
    omega
  have hprefix : received <+: (bytesFrom fs r).take r.size.toNat := by
    rw [hreceived]
    exact List.take_prefix_take_left (by omega)
  have hall := reach_eq_size_iff fs r
  unfold Ends at hends
  -- the writer filled up, or else the range was copied, or the file ended
  by_cases hfull : room < reach fs r
  · rw [if_pos hfull] at hends
    obtain ⟨fault, rfl⟩ := hends
    refine ⟨iff_of_false nofun (by omega), nofun, hprefix, ?_⟩
    rintro _ ⟨rfl⟩
    exact .inl ⟨⟨fault, rfl⟩, by omega, by omega, chunk_of_lt_reach hfull⟩
  rw [if_neg hfull] at hends
  by_cases hwhole : reach fs r = r.size.toNat
  · rw [if_pos hwhole] at hends
    subst hends
    have hbytes : received = (bytesFrom fs r).take r.size.toNat := by
      rw [hreceived, ← hwhole, Nat.min_eq_right (Nat.not_lt.mp hfull)]
    refine ⟨iff_of_true ⟨_, rfl⟩ (by omega), ?_, hprefix, nofun⟩
    rintro _ ⟨rfl⟩
    refine ⟨rfl, hbytes, ?_⟩
    by_cases hnone : r.size.toNat = 0
    · rw [hbytes, hnone, List.take_zero]
      exact readAt_nothing (Nat.zero_le _)
    · have hthere := reach_le_length fs r
      have hread : r.readAt fs (UInt64.ofNat 0) r.size.toNat = _ :=
        readAt_of_le_length hlow hfile (by omega) (Nat.pos_of_ne_zero hnone) (by omega)
      rw [List.drop_zero, ← hbytes] at hread
      exact hread
  · rw [if_neg hwhole] at hends
    obtain ⟨place, n, fault, rfl⟩ := hends
    obtain ⟨chunks, hchunks, hpresent, hmissing⟩ := reach_of_ended hwhole
    refine ⟨iff_of_false nofun (by omega), nofun, hprefix, ?_⟩
    rintro _ ⟨rfl⟩
    exact .inr ⟨⟨place, n, fault, rfl⟩, chunks, by omega, by omega, by omega, hpresent, hmissing⟩

/-- A copy of a range does what it is to do, for every writer and for the sink. -/
theorem copied_of_low :
    (∀ (State : Type) (w : Writer State) (s : State),
      Copied fs r (w.room s) (w.copyFrom fs r 0 s).1 (w.copyFrom fs r 0 s).2) ∧
    ∀ room, Copied fs r room (r.copyTo fs (Sink.ofLimit room)).1
      (r.copyTo fs (Sink.ofLimit room)).2.received.toList := by
  have hwriter (State : Type) (w : Writer State) (s : State) :
      Copied fs r (w.room s) (w.copyFrom fs r 0 s).1 (w.copyFrom fs r 0 s).2 := by
    obtain ⟨hreceived, hends⟩ := copyFrom_ends hlow hfile 0 s (fun _ => Nat.dvd_zero _)
      (Nat.zero_le _)
    rw [List.drop_zero, Nat.sub_zero] at hreceived
    rw [Nat.zero_add] at hends
    exact copied_of_ends hlow hfile hreceived hends
  refine ⟨hwriter, fun room => ?_⟩
  obtain ⟨houtcome, hreceived⟩ := Sink.copyFrom_writer fs r 0 (Sink.ofLimit room)
  have hsink := hwriter Sink Sink.writer (Sink.ofLimit room)
  have hempty : (Sink.ofLimit room).received.toList = [] := rfl
  rw [hempty, List.nil_append] at hreceived
  have hcopy : r.copyTo fs (Sink.ofLimit room) = r.copyFrom fs 0 (Sink.ofLimit room) := rfl
  rw [hcopy, houtcome, hreceived]
  exact hsink

end Copy

/-- A writer that takes one byte of every offer, as many as its state says. -/
def oneByOne : Writer Nat where
  room s := s
  offer s bytes := .ok (min s (min 1 bytes.length), s - min 1 bytes.length)
  offer_of_room s bytes hroom hnone := by
    have hsome := List.length_pos_iff.mpr hnone
    exact ⟨_, _, rfl, by omega, by omega, by omega⟩
  offer_of_full s bytes n next hfull hoffer := by
    obtain ⟨rfl, -⟩ := Prod.mk.inj (Except.ok.inj hoffer)
    omega

/-- Two bytes go into a sink with just room for them; a writer with less room gets the first. -/
theorem copied_middle :
    (middle.offset.toNat + middle.size.toNat < 2 ^ 64 ∧
      (fourBytes.bytesBehind middle.file).length ≤ 2 ^ 63) ∧
    (middle.copyTo fourBytes (Sink.ofLimit 2)).1 = .ok 2 ∧
    (middle.copyTo fourBytes (Sink.ofLimit 2)).2.received.toList = [0x11, 0x12] ∧
    (oneByOne.copyFrom fourBytes middle 0 1).2 = [0x11] := by
  have hlow : middle.offset.toNat + middle.size.toNat < 2 ^ 64 := by decide
  have hfile : (fourBytes.bytesBehind middle.file).length ≤ 2 ^ 63 := by decide
  obtain ⟨hwriters, hsinks⟩ := copied_of_low hlow hfile
  obtain ⟨n, hn⟩ := (hsinks 2).ok_iff.mpr (.inr (by decide))
  obtain ⟨rfl, hreceived, -⟩ := (hsinks 2).of_ok n hn
  refine ⟨⟨hlow, hfile⟩, hn, hreceived, ?_⟩
  have hfirst := hwriters Nat oneByOne 1
  have hshort : ¬∃ n, (oneByOne.copyFrom fourBytes middle 0 1).1 = .ok n :=
    fun hok => absurd (hfirst.ok_iff.mp hok) (by decide)
  cases houtcome : (oneByOne.copyFrom fourBytes middle 0 1).1 with
  | ok n => exact absurd ⟨n, houtcome⟩ hshort
  | error e =>
    obtain ⟨-, hone, -⟩ | ⟨-, chunks, -, -, -, -, hmissing⟩ := hfirst.of_error e houtcome
    · have hprefix := List.prefix_iff_eq_take.mp hfirst.received_prefix
      rw [hone] at hprefix
      exact hprefix
    · have hpresent : middle.offset.toNat + middle.size.toNat ≤
          (fourBytes.bytesBehind middle.file).length := by decide
      omega

end FileRange

end Cartridge
