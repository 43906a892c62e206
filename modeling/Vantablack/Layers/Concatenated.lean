import Vantablack.Layers.LdpcErrors

/-!
The concatenated code under the errors it is made for: one shard may be dropped, and each link
block of the others may have one wrong bit. What comes back differs from the payload exactly where
a link block is left with wrong data bits that are still used.
-/

namespace Vantablack.Layers

open Lib List

namespace LdpcCodec

/-! ### Packets of blocks -/

variable {f : ℕ → Bytes} {n : ℕ}

theorem length_flatMap_range {w : ℕ} (h : ∀ b < n, (f b).length = w) :
    ((range n).flatMap f).length = w * n := by
  induction n with
  | zero => rfl
  | succ n ih =>
      rw [range_succ, flatMap_append, length_append, flatMap_singleton,
        ih fun b hb => h b (by omega), h n (by omega), Nat.mul_succ]

theorem chunk_flatMap_range {w : ℕ} (h : ∀ b < n, (f b).length = w) {b : ℕ} (hb : b < n) :
    chunk w ((range n).flatMap f) b = f b := by
  have hsplit : ∃ rest, (range n).flatMap f = (range b).flatMap f ++ (f b ++ rest) := by
    induction n with
    | zero => omega
    | succ n ih =>
        rw [range_succ, flatMap_append, flatMap_singleton]
        by_cases hbn : b = n
        · subst hbn
          exact ⟨[], by rw [append_nil]⟩
        · obtain ⟨rest, hrest⟩ := ih (fun b hb => h b (by omega)) (by omega)
          refine ⟨rest ++ f n, ?_⟩
          rw [hrest, append_assoc, append_assoc]
  obtain ⟨rest, hrest⟩ := hsplit
  have hfront := length_flatMap_range fun b' (hb' : b' < b) => h b' (by omega)
  rw [chunk, hrest, drop_left' hfront, take_left' (h b hb)]

theorem chunks_flatMap_range {w : ℕ} (hw : 0 < w) (h : ∀ b < n, (f b).length = w) :
    chunks w ((range n).flatMap f) = (range n).map f := by
  have hcount : (w * n + (w - 1)) / w = n := by
    rw [Nat.mul_add_div hw, Nat.div_eq_of_lt (by omega), Nat.add_zero]
  rw [chunks, length_flatMap_range h, hcount]
  exact map_congr_left fun b hb => chunk_flatMap_range h (mem_range.mp hb)

theorem bitAt_chunk {q : ℕ} (hq : q < 8 * n) (data : Bytes) (b : ℕ) :
    bitAt (chunk n data b) q = bitAt data (8 * (n * b) + q) := by
  have hdiv : (8 * (n * b) + q) / 8 = n * b + q / 8 := by omega
  have hmod : (8 * (n * b) + q) % 8 = q % 8 := by omega
  have hlt : q / 8 < n := by omega
  rw [bitAt, bitAt, hdiv, hmod, chunk, getD_eq_getElem?_getD, getElem?_take,
    if_pos hlt, getElem?_drop, getD_eq_getElem?_getD]

theorem length_resized (n : ℕ) (data : Bytes) : (resized n data).length = n := by
  rw [resized, length_append, length_take, length_replicate]
  omega

theorem bitAt_resized {data : Bytes} (h : data.length ≤ n) (i : ℕ) :
    bitAt (resized n data) i = bitAt data i := by
  rw [resized, take_of_length_le h]
  by_cases hi : i < 8 * data.length
  · exact bitAt_append_left hi
  · obtain ⟨k, rfl⟩ := Nat.exists_eq_add_of_le (Nat.le_of_not_lt hi)
    rw [bitAt_append_right, bitAt_replicate_zero, bitAt_of_length_le (by omega)]

def blockData (data : Bytes) (b : ℕ) : Bytes := resized 64 (chunk 64 data b)

theorem length_chunk_le (n : ℕ) (data : Bytes) (b : ℕ) : (chunk n data b).length ≤ n :=
  length_take_le ..

theorem encodePacket_eq (data : Bytes) :
    new.encodePacket data =
      (range ((data.length + 63) / 64)).flatMap fun b => codeword (blockData data b) := by
  have hencode : ∀ b, new.encode (blockData data b) = .ok (codeword (blockData data b)) :=
    fun b => encode_eq_codeword (length_resized 64 _)
  rw [encodePacket, chunks, flatMap_map]
  refine congrArg (flatMap · _) (funext fun b => ?_)
  have h := hencode b
  rw [blockData] at h
  rw [h, blockData]

/-! ### Wrong bits in a packet -/

/-- A packet in which some blocks have one bit flipped. -/
def corrupt (flips : ℕ → Option (Fin 1024)) (packet : Bytes) : Bytes :=
  (range (packet.length / 128)).flatMap fun b =>
    match flips b with
    | none => chunk 128 packet b
    | some p => flipBit (chunk 128 packet b) p

/-- The data bits of a block that stay wrong. -/
def damage : Option (Fin 1024) → List ℕ
  | none => []
  | some p => leftOver p

variable (flip : Option (Fin 1024))

theorem damage_places : (damage flip).Nodup ∧ ∀ q ∈ damage flip, q < 512 := by
  cases flip with
  | none => exact ⟨nodup_nil, fun q hq => absurd hq not_mem_nil⟩
  | some p => exact leftOver_places p p.isLt

theorem decodeChunks_map {g : ℕ → Bytes} {blocks : List ℕ}
    (h : ∀ b ∈ blocks, (f b).length = 128 ∧ new.decode (f b) = .ok (g b)) :
    new.decodeChunks (blocks.map f) = blocks.flatMap g := by
  induction blocks with
  | nil => rfl
  | cons b blocks ih =>
      obtain ⟨⟨hlength, hdecode⟩, hblocks⟩ := forall_mem_cons.mp h
      rw [map_cons, decodeChunks, if_neg (by omega), hdecode, flatMap_cons, ih hblocks]

variable (flips : ℕ → Option (Fin 1024))

theorem decodePacket_corrupt (data : Bytes) :
    new.decodePacket (corrupt flips (new.encodePacket data)) =
      (range ((data.length + 63) / 64)).flatMap fun b =>
        flipBits (blockData data b) (damage (flips b)) := by
  have hlength : ∀ b, (blockData data b).length = 64 := fun b => length_resized 64 _
  have hcodeword : ∀ b < (data.length + 63) / 64, (codeword (blockData data b)).length = 128 :=
    fun b _ => length_codeword (hlength b)
  have hcorrupt : corrupt flips (new.encodePacket data) =
      (range ((data.length + 63) / 64)).flatMap fun b =>
        match flips b with
        | none => codeword (blockData data b)
        | some p => flipBit (codeword (blockData data b)) p := by
    rw [corrupt, encodePacket_eq, length_flatMap_range hcodeword, Nat.mul_div_cancel_left _ (by omega)]
    refine flatMap_congr fun b hb => ?_
    rw [chunk_flatMap_range hcodeword (mem_range.mp hb)]
  rw [decodePacket, hcorrupt, chunks_flatMap_range (by omega)]
  · refine decodeChunks_map fun b _ => ?_
    cases flips b with
    | none => exact ⟨length_codeword (hlength b), decode_codeword (hlength b)⟩
    | some p =>
        exact ⟨by rw [length_flipBit, length_codeword (hlength b)],
          decode_flipBit (hlength b) p.isLt⟩
  · intro b _
    cases flips b with
    | none => exact length_codeword (hlength b)
    | some p => rw [length_flipBit, length_codeword (hlength b)]

/-- A shard as it comes out of the link code, cut to its length. -/
def linkDecoded (flips : ℕ → Option (Fin 1024)) (shard : Bytes) : Bytes :=
  (new.decodePacket (corrupt flips (new.encodePacket shard))).take shard.length

theorem length_flipBits_blockData (data : Bytes) (b : ℕ) :
    (flipBits (blockData data b) (damage (flips b))).length = 64 := by
  rw [length_flipBits, blockData, length_resized]

theorem length_linkDecoded (shard : Bytes) : (linkDecoded flips shard).length = shard.length := by
  rw [linkDecoded, length_take, decodePacket_corrupt,
    length_flatMap_range fun b _ => length_flipBits_blockData flips shard b]
  omega

theorem bitAt_take {data : Bytes} {k i : ℕ} (h : i < 8 * k) :
    bitAt (data.take k) i = bitAt data i := by
  have hchunk := bitAt_chunk h data 0
  rw [chunk, Nat.mul_zero, drop_zero, Nat.mul_zero, Nat.zero_add] at hchunk
  exact hchunk

variable {shard : Bytes}

theorem bitAt_linkDecoded {i : ℕ} (h : i < 8 * shard.length) :
    bitAt (linkDecoded flips shard) i =
      (bitAt shard i ^^ onesAt (damage (flips (i / 512))) (i % 512)) := by
  have hsplit : i = 8 * (64 * (i / 512)) + i % 512 := by omega
  have hblock : i / 512 < (shard.length + 63) / 64 := by omega
  have hq : i % 512 < 8 * 64 := by omega
  obtain ⟨hnodup, hplaces⟩ := damage_places (flips (i / 512))
  have hbound : ∀ q ∈ damage (flips (i / 512)), q < 8 * (blockData shard (i / 512)).length := by
    rw [blockData, length_resized]
    exact hplaces
  rw [linkDecoded, bitAt_take h, decodePacket_corrupt]
  nth_rewrite 1 [hsplit]
  rw [← bitAt_chunk hq, chunk_flatMap_range (fun b _ => length_flipBits_blockData flips shard b)
    hblock, bitAt_flipBits hnodup hbound, blockData, bitAt_resized (length_chunk_le ..),
    bitAt_chunk hq, ← hsplit]

/-- The first `k` bytes of a shard have no bit that stays wrong. -/
def Intact (flips : ℕ → Option (Fin 1024)) (k : ℕ) : Prop :=
  ∀ i < 8 * k, i % 512 ∉ damage (flips (i / 512))

instance (flips : ℕ → Option (Fin 1024)) (k : ℕ) : Decidable (Intact flips k) :=
  inferInstanceAs (Decidable (∀ i < 8 * k, i % 512 ∉ damage (flips (i / 512))))

theorem take_linkDecoded {flips : ℕ → Option (Fin 1024)} {k : ℕ} (hk : k ≤ shard.length) :
    (linkDecoded flips shard).take k = shard.take k ↔ Intact flips k := by
  have hbit : ∀ i < 8 * k, bitAt ((linkDecoded flips shard).take k) i =
      (bitAt (shard.take k) i ^^ onesAt (damage (flips (i / 512))) (i % 512)) := by
    intro i hi
    rw [bitAt_take hi, bitAt_take hi, bitAt_linkDecoded flips (by omega)]
  have hlength := length_linkDecoded flips shard
  constructor
  · intro h i hi hwrong
    have hi' := hbit i hi
    rw [h, onesAt, decide_eq_true hwrong] at hi'
    simp at hi'
  · intro h
    refine bytes_ext ?_ fun i hi => ?_
    · rw [length_take, length_take, hlength]
    · rw [length_take, hlength, Nat.min_eq_left hk] at hi
      rw [hbit i hi, onesAt, decide_eq_false (h i hi), Bool.xor_false]

theorem linkDecoded_eq_iff {flips : ℕ → Option (Fin 1024)} :
    linkDecoded flips shard = shard ↔ Intact flips shard.length := by
  rw [← take_linkDecoded le_rfl, take_length,
    take_of_length_le (length_linkDecoded flips shard).le]

/-! ### Damage as bytes -/

/-- The byte of a block that wrong data bits make. -/
def maskAt (places : List ℕ) (r : ℕ) : UInt8 :=
  places.foldl (fun mask q => if q / 8 = r then mask ^^^ 1 <<< UInt8.ofNat (7 - q % 8) else mask) 0

theorem testBit_maskAt {places : List ℕ} (hnodup : places.Nodup) {r k : ℕ} (hk : k < 8) :
    (maskAt places r).toNat.testBit (7 - k) = onesAt places (8 * r + k) := by
  have hfold : ∀ (places : List ℕ) (mask : UInt8), places.Nodup →
      (places.foldl (fun mask q => if q / 8 = r then mask ^^^ 1 <<< UInt8.ofNat (7 - q % 8)
        else mask) mask).toNat.testBit (7 - k) =
      (mask.toNat.testBit (7 - k) ^^ onesAt places (8 * r + k)) := by
    intro places
    induction places with
    | nil => exact fun mask _ => (Bool.xor_false _).symm
    | cons q places ih =>
        intro mask hnodup
        obtain ⟨hnot, hnodup⟩ := nodup_cons.mp hnodup
        rw [foldl_cons, ih _ hnodup]
        by_cases hq : 8 * r + k = q
        · have hbyte : q / 8 = r := by omega
          have hplace : q % 8 = k := by omega
          rw [if_pos hbyte, UInt8.toNat_xor, Nat.testBit_xor, one_shiftLeft_toNat (by omega),
            Nat.testBit_two_pow, hq, hplace]
          simp [onesAt, hnot]
        · have hcons : onesAt (q :: places) (8 * r + k) = onesAt places (8 * r + k) := by
            simp [onesAt, hq]
          rw [hcons]
          congr 1
          split
          · rw [UInt8.toNat_xor, Nat.testBit_xor, one_shiftLeft_toNat (by omega),
              Nat.testBit_two_pow, decide_eq_false (by omega), Bool.xor_false]
          · rfl
  have h := hfold places 0 hnodup
  rw [maskAt, h]
  exact (congrArg (· ^^ _) (Nat.zero_testBit _)).trans (Bool.false_xor _)

theorem getD_linkDecoded (h : n < shard.length) :
    (linkDecoded flips shard).getD n 0 =
      shard.getD n 0 ^^^ maskAt (damage (flips (n / 64))) (n % 64) := by
  refine UInt8.toNat_inj.mp (Nat.eq_of_testBit_eq fun k => ?_)
  by_cases hk : k < 8
  · have hplaceBit : 8 * n + (7 - k) < 8 * shard.length := by omega
    have hbit := bitAt_linkDecoded flips hplaceBit
    have hdiv : (8 * n + (7 - k)) / 8 = n := by omega
    have hmod : 7 - (8 * n + (7 - k)) % 8 = k := by omega
    have hblock : (8 * n + (7 - k)) / 512 = n / 64 := by omega
    have hplace : (8 * n + (7 - k)) % 512 = 8 * (n % 64) + (7 - k) := by omega
    have hmask := testBit_maskAt (damage_places (flips (n / 64))).1 (r := n % 64)
      (show 7 - k < 8 by omega)
    have hback : 7 - (7 - k) = k := by omega
    rw [bitAt_eq, bitAt_eq, hdiv, hmod, hblock, hplace] at hbit
    rw [UInt8.toNat_xor, Nat.testBit_xor, hbit, ← hmask, hback]
  · have hsmall : ∀ x : UInt8, x.toNat.testBit k = false := fun x =>
      Nat.testBit_lt_two_pow (x.toNat_lt.trans_le (Nat.pow_le_pow_right (by decide) (by omega)))
    rw [hsmall, hsmall]

/-- The parity bits that the decoder does not put right when they are wrong. -/
def harmful : List ℕ :=
  [543, 575, 594, 595, 607, 639, 671, 703, 735, 799, 831, 850, 851, 863, 895, 927, 959, 991, 1023]

theorem leftOver_eq_nil_or : ∀ p < 1024, leftOver p = [] ∨ p ∈ harmful := by decide +kernel

theorem maskAt_uncompensated : ∀ p ∈ harmful, ∀ q ∈ leftOver p,
    maskAt [] (q / 8) ≠ galMul (maskAt (leftOver p) (q / 8)) 2 8 ∧
      ∀ p' ∈ harmful,
        maskAt (leftOver p') (q / 8) ≠ galMul (maskAt (leftOver p) (q / 8)) 2 8 := by
  decide +kernel

theorem damage_eq_nil_or : damage flip = [] ∨ ∃ p ∈ harmful, damage flip = leftOver p := by
  cases flip with
  | none => exact Or.inl rfl
  | some p => exact (leftOver_eq_nil_or p p.isLt).imp id fun hp => ⟨p, hp, rfl⟩

theorem maskAt_eq_zero_of_compensated (flip' : Option (Fin 1024)) (r : ℕ)
    (h : maskAt (damage flip') r = galMul (maskAt (damage flip) r) 2 8) :
    ∀ q ∈ damage flip, q / 8 ≠ r := by
  rintro q hq rfl
  obtain hnil | ⟨p, hp, hdamage⟩ := damage_eq_nil_or flip
  · rw [hnil] at hq
    exact absurd hq not_mem_nil
  · rw [hdamage] at hq h
    obtain ⟨hnone, hother⟩ := maskAt_uncompensated p hp q hq
    obtain hnil | ⟨p', hp', hdamage'⟩ := damage_eq_nil_or flip'
    · rw [hnil] at h
      exact hnone h
    · rw [hdamage'] at h
      exact hother p' hp' h

end LdpcCodec

/-! ### The arithmetic of the parity shard -/

theorem galMul_inverse_three (a : UInt8) : galMul (galMul a 0xF4 8) 3 8 = a := by
  have h : ∀ i : Fin 256, galMul (galMul (UInt8.ofFin i) 0xF4 8) 3 8 = UInt8.ofFin i := by
    decide +kernel
  exact h a.toFin

theorem galMul_inverse_two (a : UInt8) : galMul (galMul a 0x8E 8) 2 8 = a := by
  have h : ∀ i : Fin 256, galMul (galMul (UInt8.ofFin i) 0x8E 8) 2 8 = UInt8.ofFin i := by
    decide +kernel
  exact h a.toFin

theorem galois8_parity_recoverHigh {low p : Bytes} (h : low.length = p.length) :
    galois8.parity low (galois8.recoverHigh low p) = p := by
  have hswap : galois8.recoverHigh low p =
      zipWith (fun c a => galMul (c ^^^ galMul a 3 8) 0x8E 8) p low := zipWith_comm
  rw [hswap]
  refine zipWith_cancel ?_ h.symm
  intro c a
  rw [galMul_inverse_two, UInt8.xor_comm c, ← UInt8.xor_assoc, UInt8.xor_self, UInt8.zero_xor]

theorem galois8_parity_recoverLow {high p : Bytes} (h : high.length = p.length) :
    galois8.parity (galois8.recoverLow high p) high = p := by
  have hswap : galois8.parity (galois8.recoverLow high p) high =
      zipWith (fun b a => galMul a 3 8 ^^^ galMul b 2 8) high
        (galois8.recoverLow high p) := zipWith_comm
  have hrecover : galois8.recoverLow high p =
      zipWith (fun c b => galMul (c ^^^ galMul b 2 8) 0xF4 8) p high := zipWith_comm
  rw [hswap, hrecover]
  refine zipWith_cancel ?_ h.symm
  intro c b
  rw [galMul_inverse_three, UInt8.xor_assoc, UInt8.xor_self, UInt8.xor_zero]

theorem take_galois8_parity (low high : Bytes) (m : ℕ) :
    (galois8.parity low high).take m = galois8.parity (low.take m) (high.take m) :=
  take_zipWith

theorem take_galois8_recoverHigh (low p : Bytes) (m : ℕ) :
    (galois8.recoverHigh low p).take m = galois8.recoverHigh (low.take m) (p.take m) :=
  take_zipWith

section Reconstruct

variable {rs : ReedSolomon} (hrs : rs.Lawful) (hparity : rs.parity = galois8.parity)

include hrs hparity

theorem recoverHigh_eq {low p : Bytes} (h : low.length = p.length) :
    rs.recoverHigh low p = galois8.recoverHigh low p := by
  have hlength : low.length = (galois8.recoverHigh low p).length := by simp [galois8, h]
  have hback := hrs.recoverHigh_parity low (galois8.recoverHigh low p) hlength
  rwa [hparity, galois8_parity_recoverHigh h] at hback

theorem recoverLow_eq {high p : Bytes} (h : high.length = p.length) :
    rs.recoverLow high p = galois8.recoverLow high p := by
  have hlength : (galois8.recoverLow high p).length = high.length := by simp [galois8, h]
  have hback := hrs.recoverLow_parity (galois8.recoverLow high p) high hlength
  rwa [hparity, galois8_parity_recoverLow h] at hback

theorem take_recoverHigh_iff {low high p : Bytes} (h : low.length = high.length)
    (hp : low.length = p.length) (m : ℕ) :
    (rs.recoverHigh low p).take m = high.take m ↔ p.take m = (rs.parity low high).take m := by
  rw [recoverHigh_eq hrs hparity hp, hparity]
  have hhigh : galois8.recoverHigh low (galois8.parity low high) = high :=
    galois8_lawful.recoverHigh_parity low high h
  constructor
  · intro heq
    rw [take_galois8_parity, ← heq, ← take_galois8_parity, galois8_parity_recoverHigh hp]
  · intro heq
    rw [take_galois8_recoverHigh, heq, ← take_galois8_recoverHigh, hhigh]

end Reconstruct

/-! ### The adaptive code -/

open LdpcCodec

/-- What is received of three shards: one of them may be dropped, and the blocks of the others may
have a wrong bit each. -/
def received (shards : List Bytes) (dropped : Option (Fin 3))
    (flips : Fin 3 → ℕ → Option (Fin 1024)) : List (Option Bytes) :=
  (finRange 3).map fun i =>
    if dropped = some i then none else shards[i.val]?.map (corrupt (flips i))

/-- No data bit stays wrong in the part of the shards that the payload is made of. -/
def PartsIntact (len : ℕ) (flips : Fin 3 → ℕ → Option (Fin 1024)) : Option (Fin 3) → Prop
  | some 0 => Intact (flips 1) ((len + 1) / 2) ∧ Intact (flips 2) ((len + 1) / 2)
  | some 1 => Intact (flips 0) ((len + 1) / 2) ∧ Intact (flips 2) (len - (len + 1) / 2)
  | _ => Intact (flips 0) ((len + 1) / 2) ∧ Intact (flips 1) (len - (len + 1) / 2)

/-- The errors from which a payload of `len` bytes comes back; of an empty one nothing may be
dropped. -/
def Recoverable (len : ℕ) (dropped : Option (Fin 3)) (flips : Fin 3 → ℕ → Option (Fin 1024)) :
    Prop :=
  (len = 0 → dropped = none) ∧ PartsIntact len flips dropped

/-- The two data shards are the payload and its padding. -/
structure Halves (data low high : Bytes) : Prop where
  joined : low ++ high = padded data
  length_low : low.length = (data.length + 1) / 2
  length_high : high.length = (data.length + 1) / 2
  ne_nil : data ≠ []

namespace Halves

variable {data low high : Bytes} (h : Halves data low high)

include h

theorem take_joined : (low ++ high).take data.length = data := by
  rw [h.joined, padded]
  split
  · exact take_left
  · exact take_length

theorem joined_eq_iff {a b : Bytes} (ha : a.length = low.length) :
    (a ++ b).take data.length = data ↔
      a = low ∧ b.take (data.length - (data.length + 1) / 2) =
        high.take (data.length - (data.length + 1) / 2) := by
  have hlow := h.length_low
  have hle : (data.length + 1) / 2 ≤ data.length := by omega
  have hfront : ∀ x y : Bytes, x.length = low.length → (x ++ y).take data.length =
      x ++ y.take (data.length - (data.length + 1) / 2) := by
    intro x y hx
    rw [take_append, take_of_length_le (by omega), hx, hlow]
  have hdata := h.take_joined
  rw [hfront low high rfl] at hdata
  rw [hfront a b ha]
  constructor
  · exact fun heq => append_inj (heq.trans hdata.symm) ha
  · rintro ⟨rfl, hb⟩
    rw [hb, hdata]

theorem last_high (hodd : data.length % 2 ≠ 0) : high.getD (data.length / 2) 0 = 0 := by
  have hlow := h.length_low
  have hjoined := h.joined
  rw [padded, if_pos hodd] at hjoined
  have hget : (low ++ high).getD data.length 0 = 0 := by
    rw [hjoined, getD_append_right _ _ _ _ le_rfl, Nat.sub_self]
    rfl
  rw [getD_append_right _ _ _ _ (by omega)] at hget
  have hplace : data.length - low.length = data.length / 2 := by omega
  rwa [hplace] at hget

end Halves

theorem halves_of_encode (rs : ReedSolomon) {data : Bytes} (hne : data ≠ []) :
    ∃ low high, encode rs data = [low, high, rs.parity low high] ∧ Halves data low high := by
  obtain ⟨low, high, hencode, hjoined, hlength, -, -⟩ := encode_eq rs hne
  have htotal : low.length + high.length = (padded data).length := by
    rw [← hjoined, length_append]
  have hpadded : (padded data).length = data.length + data.length % 2 := by
    unfold padded
    split
    · rw [length_append, length_singleton]
      omega
    · omega
  exact ⟨low, high, hencode, hjoined, by omega, by omega, hne⟩

theorem getD_galois8_parity {low high : Bytes} {n : ℕ} (hlow : n < low.length)
    (hhigh : n < high.length) :
    (galois8.parity low high).getD n 0 =
      galMul (low.getD n 0) 3 8 ^^^ galMul (high.getD n 0) 2 8 := by
  have hn : n < (galois8.parity low high).length := by
    rw [galois8, length_zipWith]
    omega
  rw [getD_eq_getElem _ _ hn, getD_eq_getElem _ _ hlow, getD_eq_getElem _ _ hhigh]
  exact getElem_zipWith ..

theorem galMul_zero : galMul 0 2 8 = 0 := by decide

theorem recoverLow_iff {rs : ReedSolomon} (hrs : rs.Lawful) (hparity : rs.parity = galois8.parity)
    {data low high : Bytes} (h : Halves data low high) (flips flips' : ℕ → Option (Fin 1024)) :
    (rs.recoverLow (linkDecoded flips high) (linkDecoded flips' (rs.parity low high)) = low ∧
      (linkDecoded flips high).take (data.length - (data.length + 1) / 2) =
        high.take (data.length - (data.length + 1) / 2)) ↔
      linkDecoded flips high = high ∧
        linkDecoded flips' (rs.parity low high) = rs.parity low high := by
  have hlow := h.length_low
  have hhigh := h.length_high
  have hlengths : low.length = high.length := by omega
  have hp := hrs.length_parity low high hlengths
  constructor
  · rintro ⟨hrecover, htake⟩
    have hb := length_linkDecoded flips high
    have hp' := length_linkDecoded flips' (rs.parity low high)
    rw [recoverLow_eq hrs hparity (by omega)] at hrecover
    -- the damaged parity is the parity of the low shard and the damaged high one
    have hcode : linkDecoded flips' (rs.parity low high) =
        galois8.parity low (linkDecoded flips high) := by
      have hback := galois8_parity_recoverLow (hb.trans (hp'.trans (by omega)).symm)
      rw [hrecover] at hback
      exact hback.symm
    suffices heq : linkDecoded flips high = high by
      exact ⟨heq, by rw [hcode, heq, hparity]⟩
    by_cases heven : data.length % 2 = 0
    · rwa [take_of_length_le (by omega), take_of_length_le (by omega)] at htake
    · -- what remains to be compared is the padding byte
      have hbyte : data.length / 2 < high.length := by omega
      have hpbyte : data.length / 2 < (rs.parity low high).length := by omega
      have hlast := h.last_high heven
      have hmask := getD_linkDecoded flips' hpbyte
      rw [hcode, hparity, getD_galois8_parity (by omega) (by omega),
        getD_galois8_parity (by omega) (by omega), getD_linkDecoded flips hbyte, hlast,
        UInt8.zero_xor, galMul_zero, UInt8.xor_zero, UInt8.xor_right_inj] at hmask
      have hclean := maskAt_eq_zero_of_compensated _ _ _ hmask.symm
      refine linkDecoded_eq_iff.mpr fun i hi => ?_
      have hfront := (take_linkDecoded (by omega)).mp htake
      by_cases hlt : i < 8 * (data.length - (data.length + 1) / 2)
      · exact hfront i hlt
      · have hblock : i / 512 = data.length / 2 / 64 := by omega
        have hplace : i % 512 / 8 = data.length / 2 % 64 := by omega
        rw [hblock]
        exact fun hwrong => hclean _ hwrong hplace
  · rintro ⟨hb, hp'⟩
    rw [hb, hp']
    exact ⟨hrs.recoverLow_parity low high hlengths, rfl⟩

def survivors (dropped : Option (Fin 3)) (s0 s1 s2 : Bytes) : List (Option Bytes) :=
  [if dropped = some 0 then none else some s0, if dropped = some 1 then none else some s1,
    if dropped = some 2 then none else some s2]

/-- The data shards that are made of them. -/
def rebuilt (rs : ReedSolomon) (dropped : Option (Fin 3)) (s0 s1 s2 : Bytes) : Bytes × Bytes :=
  match dropped with
  | some 0 => (rs.recoverLow s1 s2, s1)
  | some 1 => (s0, rs.recoverHigh s0 s2)
  | _ => (s0, s1)

theorem reconstruct_survivors (rs : ReedSolomon) (dropped : Option (Fin 3)) {s0 s1 : Bytes}
    (h0 : s0.isEmpty = false) (h1 : s1.isEmpty = false) (s2 : Bytes) (len : ℕ) :
    ((reconstruct rs (survivors dropped s0 s1 s2)).bind fun shards =>
        SelfTuningConcatenatedCode.joined shards len) =
      some (((rebuilt rs dropped s0 s1 s2).1 ++ (rebuilt rs dropped s0 s1 s2).2).take len) := by
  match dropped with
  | none => rfl
  | some 0 =>
      have hshards : survivors (some 0) s0 s1 s2 = [none, some s1, some s2] := rfl
      rw [hshards, reconstruct, h1, if_neg Bool.false_ne_true]
      rfl
  | some 1 =>
      have hshards : survivors (some 1) s0 s1 s2 = [some s0, none, some s2] := rfl
      rw [hshards, reconstruct, h0, if_neg Bool.false_ne_true]
      rfl
  | some 2 =>
      have hshards : survivors (some 2) s0 s1 s2 = [some s0, some s1, none] := rfl
      rw [hshards, reconstruct, h0, if_neg Bool.false_ne_true]
      rfl

theorem map_received {s0 s1 s2 : Bytes} {len : ℕ} (h0 : s0.length = len) (h1 : s1.length = len)
    (h2 : s2.length = len) (dropped : Option (Fin 3)) (flips : Fin 3 → ℕ → Option (Fin 1024)) :
    ((received ([s0, s1, s2].map new.encodePacket) dropped flips).map fun shard =>
        shard.map fun s => (new.decodePacket s).take len) =
      survivors dropped (linkDecoded (flips 0) s0) (linkDecoded (flips 1) s1)
        (linkDecoded (flips 2) s2) := by
  have hshard : ∀ (i : Fin 3) (s : Bytes), s.length = len →
      ((if dropped = some i then none else some (corrupt (flips i) (new.encodePacket s))).map
          fun s => (new.decodePacket s).take len) =
        if dropped = some i then none else some (linkDecoded (flips i) s) := by
    intro i s hs
    split
    · rfl
    · rw [Option.map_some, linkDecoded, hs]
  have hreceived : received ([s0, s1, s2].map new.encodePacket) dropped flips =
      survivors dropped (corrupt (flips 0) (new.encodePacket s0))
        (corrupt (flips 1) (new.encodePacket s1)) (corrupt (flips 2) (new.encodePacket s2)) := rfl
  rw [hreceived, survivors, map_cons, map_cons, map_cons, map_nil,
    hshard 0 s0 h0, hshard 1 s1 h1, hshard 2 s2 h2, survivors]

section Adaptive

variable {Rate : Type*} (highBer lowBer : Rate) {rs : ReedSolomon}

/-- The adaptive code with the codec of `new`. -/
def tunedWith : SelfTuningConcatenatedCode Rate := ⟨new, highBer, lowBer⟩

theorem decodeAdaptive_eq_some_iff (hrs : rs.Lawful) (hparity : rs.parity = galois8.parity)
    {data : Bytes} (hne : data ≠ []) (dropped : Option (Fin 3))
    (flips : Fin 3 → ℕ → Option (Fin 1024)) :
    (tunedWith highBer lowBer).decodeAdaptive rs .concatenatedLdpcRs
        (received ((encode rs data).map new.encodePacket) dropped flips) data.length = some data ↔
      Recoverable data.length dropped flips := by
  obtain ⟨low, high, hencode, h⟩ := halves_of_encode rs hne
  have hlow := h.length_low
  have hhigh := h.length_high
  have hpos := length_pos_of_ne_nil hne
  have hlengths : low.length = high.length := by omega
  have hp := hrs.length_parity low high hlengths
  have hlow' := length_linkDecoded (flips 0) low
  have hhigh' := length_linkDecoded (flips 1) high
  have hp' := length_linkDecoded (flips 2) (rs.parity low high)
  have hnonempty : ∀ x : Bytes, x.length = (data.length + 1) / 2 → x.isEmpty = false := by
    intro x hx
    rw [isEmpty_eq_false_iff, ← length_pos_iff]
    omega
  have hdecoded : (tunedWith highBer lowBer).decodeAdaptive rs .concatenatedLdpcRs
      (received ((encode rs data).map new.encodePacket) dropped flips) data.length =
      (reconstruct rs (survivors dropped (linkDecoded (flips 0) low) (linkDecoded (flips 1) high)
        (linkDecoded (flips 2) (rs.parity low high)))).bind
        fun shards => SelfTuningConcatenatedCode.joined shards data.length := by
    rw [hencode, ← map_received hlow hhigh (by omega)]
    rfl
  rw [hdecoded, reconstruct_survivors rs dropped (hnonempty _ (by omega)) (hnonempty _ (by omega)),
    Option.some_inj, Recoverable, and_iff_right fun hzero => absurd hzero hpos.ne']
  match dropped with
  | some 0 =>
      have hlength : (rs.recoverLow (linkDecoded (flips 1) high)
          (linkDecoded (flips 2) (rs.parity low high))).length = low.length := by
        rw [recoverLow_eq hrs hparity (by omega), galois8, length_zipWith]
        omega
      refine (h.joined_eq_iff hlength).trans
        ((recoverLow_iff hrs hparity h (flips 1) (flips 2)).trans ?_)
      rw [linkDecoded_eq_iff, linkDecoded_eq_iff, hp, hlow, hhigh]
      rfl
  | some 1 =>
      refine (h.joined_eq_iff hlow').trans ?_
      have hhighPart : linkDecoded (flips 0) low = low →
          ((rs.recoverHigh (linkDecoded (flips 0) low) (linkDecoded (flips 2)
              (rs.parity low high))).take (data.length - (data.length + 1) / 2) =
            high.take (data.length - (data.length + 1) / 2) ↔
          Intact (flips 2) (data.length - (data.length + 1) / 2)) := by
        intro hright
        rw [hright, take_recoverHigh_iff hrs hparity hlengths (by omega),
          take_linkDecoded (by omega)]
      refine (and_congr_right hhighPart).trans ?_
      rw [linkDecoded_eq_iff, hlow]
      rfl
  | none =>
      refine (h.joined_eq_iff hlow').trans ?_
      rw [linkDecoded_eq_iff, hlow]
      exact and_congr_right' (take_linkDecoded (by omega))
  | some 2 =>
      refine (h.joined_eq_iff hlow').trans ?_
      rw [linkDecoded_eq_iff, hlow]
      exact and_congr_right' (take_linkDecoded (by omega))

theorem decodeAdaptive_nil (dropped : Option (Fin 3)) (flips : Fin 3 → ℕ → Option (Fin 1024)) :
    (tunedWith highBer lowBer).decodeAdaptive rs .concatenatedLdpcRs
        (received ((encode rs []).map new.encodePacket) dropped flips) 0 = some [] ↔
      Recoverable 0 dropped flips := by
  have hintact : ∀ i, Intact (flips i) 0 := fun i k hk => absurd hk (Nat.not_lt_zero k)
  match dropped with
  | none => exact ⟨fun _ => ⟨fun _ => rfl, hintact 0, hintact 1⟩, fun _ => rfl⟩
  | some 0 => exact ⟨fun h => (nomatch h), fun h => (nomatch h.1 rfl)⟩
  | some 1 => exact ⟨fun h => (nomatch h), fun h => (nomatch h.1 rfl)⟩
  | some 2 => exact ⟨fun h => (nomatch h), fun h => (nomatch h.1 rfl)⟩

end Adaptive

theorem flipBits_eq_self_iff {data : Bytes} {places : List ℕ} (hnodup : places.Nodup)
    (h : ∀ q ∈ places, q < 8 * data.length) : flipBits data places = data ↔ places = [] := by
  constructor
  · intro heq
    refine eq_nil_iff_forall_not_mem.mpr fun q hq => ?_
    have hbit := bitAt_flipBits hnodup h q
    rw [heq, onesAt, decide_eq_true hq] at hbit
    simp at hbit
  · rintro rfl
    rfl

theorem leftOver_ne_nil : ∀ p ∈ harmful, leftOver p ≠ [] := by decide

theorem decode_flipBit_eq_iff {block : Bytes} (h : block.length = 64) {p : ℕ} (hp : p < 1024) :
    new.decode (flipBit (codeword block) p) = .ok block ↔ p ∉ harmful := by
  obtain ⟨hnodup, hplaces⟩ := leftOver_places p hp
  have hbound : ∀ q ∈ leftOver p, q < 8 * block.length := by rwa [h]
  rw [decode_flipBit h hp, Except.ok.injEq, flipBits_eq_self_iff hnodup hbound]
  constructor
  · exact fun hnil hharm => leftOver_ne_nil p hharm hnil
  · exact fun hharm => (leftOver_eq_nil_or p hp).resolve_right hharm

/-- With at most one shard dropped and at most one wrong bit in each link block, a payload comes
back exactly from what is recoverable; and a link block does exactly unless one of the 19 harmful
parity bits is wrong. -/
theorem concatenated_recovers_iff {Rate : Type*} [LE Rate] [DecidableLE Rate]
    (highBer lowBer ber : Rate)
    (hscheme : (tunedWith highBer lowBer).selectStrategy ber = .concatenatedLdpcRs)
    {rs : ReedSolomon} (hrs : rs.Lawful) (hparity : rs.parity = galois8.parity) :
    (∀ (data : Bytes) (dropped : Option (Fin 3)) (flips : Fin 3 → ℕ → Option (Fin 1024)),
      (tunedWith highBer lowBer).decodeAdaptive rs
          ((tunedWith highBer lowBer).encodeAdaptive rs data ber).1
          (received ((tunedWith highBer lowBer).encodeAdaptive rs data ber).2 dropped flips)
          data.length = some data ↔
        Recoverable data.length dropped flips) ∧
    ∀ block : Bytes, block.length = 64 → ∃ sent, new.encode block = .ok sent ∧
      new.decode sent = .ok block ∧
      ∀ p < 1024, (new.decode (flipBit sent p) = .ok block ↔ p ∉ harmful) := by
  refine ⟨fun data dropped flips => ?_, fun block hblock => ?_⟩
  · have hencoded : (tunedWith highBer lowBer).encodeAdaptive rs data ber =
        (.concatenatedLdpcRs, (encode rs data).map new.encodePacket) := by
      rw [SelfTuningConcatenatedCode.encodeAdaptive, hscheme]
      rfl
    rw [hencoded]
    by_cases hne : data = []
    · subst hne
      exact decodeAdaptive_nil highBer lowBer dropped flips
    · exact decodeAdaptive_eq_some_iff highBer lowBer hrs hparity hne dropped flips
  · exact ⟨codeword block, encode_eq_codeword hblock, decode_codeword hblock,
      fun p hp => decode_flipBit_eq_iff hblock hp⟩

/-- Wrong bits for the examples: one in the low shard, and one in the parity shard. -/
def twoFlips : Fin 3 → ℕ → Option (Fin 1024)
  | 0, 0 => some 9
  | 2, 0 => some 600
  | _, _ => none

/-- Three bytes come back without the high shard and with a wrong bit in each other one. -/
theorem concatenated_recovers_three :
    (tunedWith 2 1).decodeAdaptive galois8 .concatenatedLdpcRs
      (received ((tunedWith 2 1).encodeAdaptive galois8 [1, 2, 3] 3).2 (some 1) twoFlips) 3 =
      some [1, 2, 3] := by
  have hlow : Intact (twoFlips 0) 2 := by decide
  have hparity : Intact (twoFlips 2) 1 := by decide
  have hrecoverable : Recoverable 3 (some 1) twoFlips :=
    ⟨fun h => absurd h (by decide), hlow, hparity⟩
  have hscheme : (tunedWith 2 1).selectStrategy 3 = .concatenatedLdpcRs := rfl
  exact ((concatenated_recovers_iff 2 1 3 hscheme galois8_lawful rfl).1 [1, 2, 3] (some 1)
    twoFlips).mpr hrecoverable

/-- One wrong bit, the parity bit 31 of the low shard's block. -/
def harmfulFlip : Fin 3 → ℕ → Option (Fin 1024)
  | 0, 0 => some 543
  | _, _ => none

/-- Eight bytes do not come back from three shards with a single wrong parity bit, and neither
does a block. -/
theorem concatenated_not_recovers :
    (tunedWith 2 1).decodeAdaptive galois8 .concatenatedLdpcRs
        (received ((tunedWith 2 1).encodeAdaptive galois8 (replicate 8 0) 3).2 none
          harmfulFlip) 8 ≠ some (replicate 8 0) ∧
      ∃ sent, new.encode (replicate 64 0) = .ok sent ∧
        new.decode (flipBit sent 543) ≠ .ok (replicate 64 0) := by
  have hblock : (replicate 64 0 : Bytes).length = 64 := length_replicate ..
  refine ⟨fun h => ?_, codeword (replicate 64 0), encode_eq_codeword hblock, ?_⟩
  · have hne : (replicate 8 0 : Bytes) ≠ [] := by decide
    have hintact := ((decodeAdaptive_eq_some_iff 2 1 galois8_lawful rfl hne none
      harmfulFlip).mp h).2.1
    exact absurd hintact (by decide)
  · exact fun h => (decode_flipBit_eq_iff hblock (by decide)).mp h (by decide)

end Vantablack.Layers
