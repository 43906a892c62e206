import Mathlib.Tactic.Ring
import Vantablack.Send.FrameV1

/-!
The frame builders of `ghost/net/mod.rs` as they write: a zeroed buffer of the size of the frame, into
which each field is copied at its offset. `none` is the panic of a copy that does not fit, of which
there is none: the builders make the frames of `Seal` and `FrameV1`. The readers find the fields by
offsets of their own.
-/

namespace Vantablack.Send

open Lib Layers Receive List

def flagDummy : UInt8 := 0x04

def gtfBulkSize : ℕ := 1472

/-! ### Offsets -/

def offsetSessionHash : ℕ := 0
def offsetPacketCounter : ℕ := 4
def offsetShardIndex : ℕ := 8
def offsetFlags : ℕ := 9
def offsetPayloadStart : ℕ := 10
def offsetAuthTagStart : ℕ := 496
def bulkOffsetPayloadStart : ℕ := 10
def bulkOffsetAuthTagStart : ℕ := 1456

def v2OffsetSessionHash : ℕ := 0
def v2OffsetReserved : ℕ := 4
def v2OffsetShardIndex : ℕ := 8
def v2OffsetFlags : ℕ := 9
def v2OffsetPacketCounter : ℕ := 10
def v2OffsetRatchetEpoch : ℕ := 18
def v2OffsetNonce : ℕ := 26
def v2OffsetPayloadStart : ℕ := 38
def v2OffsetAuthTagStart : ℕ := 496
def v2BulkOffsetAuthTagStart : ℕ := 1456

namespace InPlace

/-- One chunk of the loop that masks the slack, with the seed and the buffer. -/
def maskChunk (slackStart tagStart : ℕ) (state : UInt64 × Bytes) (i : ℕ) :
    Option (UInt64 × Bytes) := do
  let seed := state.1 + golden
  let start := slackStart + 8 * i
  let packet ← copyFromSlice state.2 start ((slackWord seed).take (min 8 (tagStart - start)))
  return (seed, packet)

/-- The loop over the chunks of `packet[slack_start..tag_start]`. -/
def maskSlack (h : GtfV2Header) (slackStart tagStart : ℕ) (packet : Bytes) : Option Bytes :=
  ((range ((tagStart - slackStart + 7) / 8)).foldlM (maskChunk slackStart tagStart)
    (slackSeed h, packet)).map Prod.snd

def tryBuildGtfV2Frame (h : GtfV2Header) (payload : Bytes) (authTag : Octets 16) :
    Option (Except String Bytes) :=
  let (total, tagStart, cap) :=
    if h.bulk then (gtfBulkSize, v2BulkOffsetAuthTagStart, v2MaxBulkPayloadLen)
    else (gtfBaseSize, v2OffsetAuthTagStart, v2MaxPayloadLen)
  if cap < payload.length then some (.error "payload exceeds GTF v2 capacity")
  else do
    let packet := replicate total 0
    let packet ← copyFromSlice packet v2OffsetSessionHash h.sessionHash.toList
    let packet ← copyFromSlice packet v2OffsetReserved (replicate 4 0)
    let packet ← copyFromSlice packet v2OffsetShardIndex [h.shardIndex]
    let packet ← copyFromSlice packet v2OffsetFlags [wireFlags h]
    let packet ← copyFromSlice packet v2OffsetPacketCounter (toBeBytes 8 h.counter)
    let packet ← copyFromSlice packet v2OffsetRatchetEpoch (toBeBytes 8 h.epoch)
    let packet ← copyFromSlice packet v2OffsetNonce h.nonce.toList
    let packet ← copyFromSlice packet v2OffsetPayloadStart payload
    let packet ←
      (if !h.bulk && payload.length < cap then
        maskSlack h (v2OffsetPayloadStart + payload.length) tagStart packet
      else some packet)
    let packet ← copyFromSlice packet tagStart authTag.toList
    some (.ok (if h.bulk then packet else packet ++ h.tail.toList))

/-! ### Version 1 -/

section

variable (sessionHash : Octets 4) (counter : ℕ) (shardIndex : UInt8) (payload : Bytes)
  (authTag : Octets 16)

def tryBuildBulkFrame : Option (Except String Bytes) :=
  if maxBulkPayloadLen < payload.length then some (.error "payload exceeds bulk frame capacity")
  else do
    let packet := replicate gtfBulkSize 0
    let packet ← copyFromSlice packet offsetSessionHash sessionHash.toList
    let packet ← copyFromSlice packet offsetPacketCounter (toBeBytes 4 counter)
    let packet ← copyFromSlice packet offsetShardIndex [shardIndex]
    let packet ← copyFromSlice packet offsetFlags [0x01]
    let packet ← copyFromSlice packet bulkOffsetPayloadStart payload
    let packet ← copyFromSlice packet bulkOffsetAuthTagStart authTag.toList
    some (.ok packet)

/-- An error is a panic here. -/
def buildBulkFrame : Option Bytes := do
  (← tryBuildBulkFrame sessionHash counter shardIndex payload authTag).toOption

/-- The random padding is passed in. -/
def buildPrivacyFrame (jitter : Bytes) : Option Bytes :=
  if maxPayloadLen < payload.length then
    buildBulkFrame sessionHash counter shardIndex payload authTag
  else do
    let packet := replicate gtfBaseSize 0
    let packet ← copyFromSlice packet offsetSessionHash sessionHash.toList
    let packet ← copyFromSlice packet offsetPacketCounter (toBeBytes 4 counter)
    let packet ← copyFromSlice packet offsetShardIndex [shardIndex]
    let packet ← copyFromSlice packet offsetFlags [0]
    let packet ← copyFromSlice packet offsetPayloadStart payload
    let packet ← copyFromSlice packet offsetAuthTagStart authTag.toList
    some (packet ++ jitter)

def buildGtfFrame (bulk : Bool) (jitter : Bytes) : Option Bytes :=
  if bulk || maxPayloadLen < payload.length then
    buildBulkFrame sessionHash counter shardIndex payload authTag
  else buildPrivacyFrame sessionHash counter shardIndex payload authTag jitter

end

/-! ### The slack -/

/-- What the first `k` rounds of the generator yield. -/
def words (h : GtfV2Header) (k : ℕ) : Bytes :=
  (range k).flatMap fun i => slackWord (slackSeed h + UInt64.ofNat (i + 1) * golden)

theorem length_slackWord (seed : UInt64) : (slackWord seed).length = 8 := by
  rw [slackWord, length_reverse, length_toBeBytes]

theorem words_succ (h : GtfV2Header) (k : ℕ) :
    words h (k + 1) = words h k ++ slackWord (slackSeed h + UInt64.ofNat (k + 1) * golden) := by
  rw [words, range_succ, flatMap_append, flatMap_singleton]
  rfl

theorem length_words (h : GtfV2Header) (k : ℕ) : (words h k).length = 8 * k := by
  induction k with
  | zero => rfl
  | succ k ih =>
      rw [words_succ, length_append, ih, length_slackWord]
      omega

theorem slack_eq_words {h : GtfV2Header} (hpriv : h.bulk = false) (n : ℕ) :
    slack h n = (words h ((n + 7) / 8)).take n := by
  rw [slack, hpriv]
  rfl

variable {done : Bytes} {start : ℕ}

theorem maskChunk_eq {h : GtfV2Header} {n m k : ℕ} (hdone : done.length = start) (hk : 8 * k < n)
    (hn : n ≤ m) :
    maskChunk start (start + n) (slackSeed h + UInt64.ofNat k * golden,
        done ++ (words h k).take n ++ replicate (m - min (8 * k) n) 0) k =
      some (slackSeed h + UInt64.ofNat (k + 1) * golden,
        done ++ (words h (k + 1)).take n ++ replicate (m - min (8 * (k + 1)) n) 0) := by
  have hseed : slackSeed h + UInt64.ofNat k * golden + golden =
      slackSeed h + UInt64.ofNat (k + 1) * golden := by
    rw [UInt64.ofNat_add, add_mul, add_assoc]
    rfl
  have hwords : (words h k).take n = words h k :=
    take_of_length_le (by rw [length_words]; omega)
  have hnext : (words h (k + 1)).take n =
      words h k ++ (slackWord (slackSeed h + UInt64.ofNat (k + 1) * golden)).take (n - 8 * k) := by
    rw [words_succ, take_append, hwords, length_words]
  have hcut : ∀ seed, (slackWord seed).take (min 8 (start + n - (start + 8 * k))) =
      (slackWord seed).take (n - 8 * k) := by
    intro seed
    rw [take_eq_take_iff, length_slackWord]
    omega
  have hlen : (done ++ words h k).length = start + 8 * k := by
    rw [length_append, hdone, length_words]
  have hroom : ((slackWord (slackSeed h + UInt64.ofNat (k + 1) * golden)).take
      (n - 8 * k)).length ≤ m - min (8 * k) n := by
    rw [length_take]
    omega
  have hleft : m - min (8 * k) n - min (n - 8 * k) 8 = m - min (8 * (k + 1)) n := by omega
  rw [maskChunk]
  dsimp only
  rw [hseed, hcut, hwords, copyFromSlice_next 0 hlen hroom, hnext, length_take,
    length_slackWord, hleft, ← append_assoc]
  rfl

theorem maskRounds_eq {h : GtfV2Header} {n m : ℕ} (hdone : done.length = start) (hn : n ≤ m) {k : ℕ}
    (hk : 8 * k < n + 8) :
    (range k).foldlM (maskChunk start (start + n)) (slackSeed h, done ++ replicate m 0) =
      some (slackSeed h + UInt64.ofNat k * golden,
        done ++ (words h k).take n ++ replicate (m - min (8 * k) n) 0) := by
  induction k with
  | zero =>
      have hseed : slackSeed h + UInt64.ofNat 0 * golden = slackSeed h := by
        rw [show UInt64.ofNat 0 = 0 from rfl, zero_mul, add_zero]
      have hwords : (words h 0).take n = [] := take_nil
      rw [hseed, hwords, append_nil, Nat.mul_zero, Nat.zero_min, Nat.sub_zero]
      rfl
  | succ k ih =>
      rw [range_succ, foldlM_append, ih (by omega), Option.bind_eq_bind, Option.bind_some,
        foldlM_cons, maskChunk_eq hdone (by omega) hn]
      rfl

theorem maskSlack_eq {h : GtfV2Header} (hpriv : h.bulk = false) {n m : ℕ}
    (hdone : done.length = start) (hn : n ≤ m) :
    maskSlack h start (start + n) (done ++ replicate m 0) =
      some (done ++ slack h n ++ replicate (m - n) 0) := by
  have hlast : 8 * ((n + 7) / 8) < n + 8 := by omega
  have hall : min (8 * ((n + 7) / 8)) n = n := by omega
  rw [maskSlack, Nat.add_sub_cancel_left, maskRounds_eq hdone hn hlast, hall, Option.map_some,
    slack_eq_words hpriv]

theorem mask_eq {h : GtfV2Header} {packet : Bytes} {room m : ℕ} {masks : Bool}
    (hpacket : FilledTo 0 packet start done (room + m))
    (hmasks : masks = (!h.bulk && decide (0 < room))) :
    ∃ masked, (if masks then maskSlack h start (start + room) packet else some packet) =
        some masked ∧ FilledTo 0 masked (start + room) (done ++ slack h room) m := by
  have hlength : (done ++ slack h room).length = start + room := by
    rw [length_append, hpacket.1, length_slack]
  cases hbulk : h.bulk with
  | true =>
      have hzeros : slack h room = replicate room 0 := if_pos hbulk
      rw [hmasks, hbulk, hzeros]
      exact ⟨packet, rfl, hpacket.gap⟩
  | false =>
      rcases Nat.eq_zero_or_pos room with rfl | hroom
      · have hnone : slack h 0 = [] := eq_nil_of_length_eq_zero (length_slack h 0)
        rw [hmasks, hbulk, hnone, append_nil]
        rw [Nat.zero_add] at hpacket
        exact ⟨packet, rfl, hpacket⟩
      · obtain ⟨hdone, rfl⟩ := hpacket
        have hleft : room + m - room = m := by omega
        rw [hmasks, hbulk, decide_eq_true hroom]
        refine ⟨_, maskSlack_eq hbulk hdone (Nat.le_add_right ..), hlength, ?_⟩
        rw [hleft]

/-! ### The frames -/

theorem tryBuildGtfV2Frame_eq (h : GtfV2Header) (payload : Bytes) (authTag : Octets 16) :
    tryBuildGtfV2Frame h payload authTag = some (Send.tryBuildGtfV2Frame h payload authTag) := by
  have hsizes : (if h.bulk then (gtfBulkSize, v2BulkOffsetAuthTagStart, v2MaxBulkPayloadLen)
      else (gtfBaseSize, v2OffsetAuthTagStart, v2MaxPayloadLen)) =
        (38 + capacity h.bulk + 16, 38 + capacity h.bulk, capacity h.bulk) := by
    cases h.bulk <;> rfl
  unfold tryBuildGtfV2Frame
  rw [hsizes, Send.tryBuildGtfV2Frame]
  dsimp only
  split
  · rfl
  · rename_i hfits
    obtain ⟨room, hroom⟩ : ∃ room, capacity h.bulk = payload.length + room :=
      Nat.exists_eq_add_of_le (not_lt.mp hfits)
    have htotal : 38 + capacity h.bulk + 16 =
        4 + (4 + (1 + (1 + (8 + (8 + (12 + (payload.length + (room + (16 + 0))))))))) := by omega
    have h0 := FilledTo.start (0 : UInt8) (38 + capacity h.bulk + 16)
    rw [htotal] at h0 ⊢
    refine h0.copy h.sessionHash.toList_length fun p4 h4 => ?_
    refine h4.copy (length_replicate ..) fun p8 h8 => ?_
    refine h8.copy (length_singleton ..) fun p9 h9 => ?_
    refine h9.copy (length_singleton ..) fun p10 h10 => ?_
    refine h10.copy (length_toBeBytes 8 _) fun p18 h18 => ?_
    refine h18.copy (length_toBeBytes 8 _) fun p26 h26 => ?_
    refine h26.copy h.nonce.toList_length fun p38 h38 => ?_
    refine h38.copy rfl fun pay hpay => ?_
    have hmasks : (!h.bulk && decide (payload.length < capacity h.bulk)) =
        (!h.bulk && decide (0 < room)) := by
      simp only [hroom, Nat.lt_add_right_iff_pos]
    have htag : 38 + capacity h.bulk = v2OffsetPayloadStart + payload.length + room := by
      rw [hroom, ← Nat.add_assoc]
      rfl
    obtain ⟨masked, hmask, hmasked⟩ := mask_eq hpay hmasks
    rw [htag]
    refine Option.bind_eq_some_iff.mpr ⟨masked, hmask, ?_⟩
    refine hmasked.copy authTag.toList_length fun tagged hlast => ?_
    have hslack : capacity h.bulk - payload.length = room := by omega
    rw [hlast.eq_done, hslack]
    cases h.bulk with
    | true =>
        simp only [if_true, append_nil, nil_append, append_assoc, cons_append]
    | false =>
        simp only [Bool.false_eq_true, if_false, nil_append, append_assoc,
          cons_append]

section

variable {sessionHash : Octets 4} {counter : ℕ} {shardIndex flags : UInt8} {payload : Bytes}
  {authTag : Octets 16} {β : Type} {f : Bytes → Option β} {result : β} {room tagStart : ℕ}

theorem copies_eq_some (htag : tagStart = 10 + (payload.length + room))
    (hresult : f (sessionHash.toList ++ (toBeBytes 4 counter ++ (shardIndex :: flags ::
      (payload ++ (replicate room 0 ++ authTag.toList))))) = some result) :
    (do
      let packet ← copyFromSlice (replicate (tagStart + 16) 0) offsetSessionHash
        sessionHash.toList
      let packet ← copyFromSlice packet offsetPacketCounter (toBeBytes 4 counter)
      let packet ← copyFromSlice packet offsetShardIndex [shardIndex]
      let packet ← copyFromSlice packet offsetFlags [flags]
      let packet ← copyFromSlice packet offsetPayloadStart payload
      let packet ← copyFromSlice packet tagStart authTag.toList
      f packet) = some result := by
  have htotal : tagStart + 16 =
      4 + (4 + (1 + (1 + (payload.length + (room + (16 + 0)))))) := by omega
  have hpos : tagStart = 10 + payload.length + room := by omega
  have h0 := FilledTo.start (0 : UInt8) (tagStart + 16)
  rw [htotal] at h0 ⊢
  rw [hpos]
  refine h0.copy sessionHash.toList_length fun p4 h4 => ?_
  refine h4.copy (length_toBeBytes 4 counter) fun p8 h8 => ?_
  refine h8.copy (length_singleton ..) fun p9 h9 => ?_
  refine h9.copy (length_singleton ..) fun p10 h10 => ?_
  refine h10.copy rfl fun pay hpay => ?_
  refine hpay.gap.copy authTag.toList_length fun tagged hlast => ?_
  rw [hlast.eq_done]
  simpa only [nil_append, append_assoc, cons_append] using hresult

theorem buildBulkFrame_eq (hfits : payload.length ≤ maxBulkPayloadLen) :
    buildBulkFrame sessionHash counter shardIndex payload authTag =
      some (sessionHash.toList ++ (toBeBytes 4 counter ++ (shardIndex :: flagBulk ::
        (payload ++ (replicate (maxBulkPayloadLen - payload.length) 0 ++
          authTag.toList))))) := by
  have htag : bulkOffsetAuthTagStart =
      10 + (payload.length + (maxBulkPayloadLen - payload.length)) := by
    rw [Nat.add_sub_cancel' hfits]
    rfl
  have hbuilt : tryBuildBulkFrame sessionHash counter shardIndex payload authTag =
      some (.ok _) := (if_neg (not_lt.mpr hfits)).trans (copies_eq_some htag rfl)
  rw [buildBulkFrame, hbuilt]
  rfl

theorem buildBulkFrame_eq_none (hlong : maxBulkPayloadLen < payload.length) :
    buildBulkFrame sessionHash counter shardIndex payload authTag = none := by
  rw [buildBulkFrame, tryBuildBulkFrame, if_pos hlong]
  rfl

end

theorem buildGtfFrame_eq (sessionHash : Octets 4) (counter : ℕ) (shardIndex : UInt8)
    (payload : Bytes) (authTag : Octets 16) (bulk : Bool) (jitter : Bytes) :
    buildGtfFrame sessionHash counter shardIndex payload authTag bulk jitter =
      Send.buildGtfFrame sessionHash counter shardIndex payload authTag bulk jitter := by
  unfold buildGtfFrame Send.buildGtfFrame
  dsimp only
  cases hbulk : bulk || decide (maxPayloadLen < payload.length) with
  | true =>
      by_cases hfits : payload.length ≤ maxBulkPayloadLen
      · rw [if_pos rfl, if_pos rfl, if_pos rfl, if_neg (not_lt.mpr hfits), buildBulkFrame_eq hfits,
          if_pos rfl, append_nil]
      · rw [if_pos rfl, if_pos rfl, if_pos (not_le.mp hfits),
          buildBulkFrame_eq_none (not_le.mp hfits)]
  | false =>
      have hshort : ¬ maxPayloadLen < payload.length :=
        of_decide_eq_false (Bool.or_eq_false_iff.mp hbulk).2
      have htag : offsetAuthTagStart = 10 + (payload.length + (maxPayloadLen - payload.length)) := by
        rw [Nat.add_sub_cancel' (not_lt.mp hshort)]
        rfl
      have hbuilt : buildPrivacyFrame sessionHash counter shardIndex payload authTag jitter =
          some _ := (if_neg hshort).trans (copies_eq_some htag rfl)
      rw [if_neg Bool.false_ne_true, if_neg Bool.false_ne_true, if_neg Bool.false_ne_true,
        if_neg Bool.false_ne_true, if_neg hshort, hbuilt]
      simp only [append_assoc, cons_append]

end InPlace

/-! ### Reading the frames -/

def extractAuthTag (buf : Bytes) : Bytes :=
  let tagStart :=
    if isV2Frame buf then
      if isBulkFrame buf then v2BulkOffsetAuthTagStart else v2OffsetAuthTagStart
    else if isBulkFrame buf then bulkOffsetAuthTagStart
    else offsetAuthTagStart
  let tagEnd := min (tagStart + 16) buf.length
  if tagStart + 16 ≤ tagEnd then (buf.take tagEnd).drop tagStart else []

/-- The jitter tail of a privacy frame. -/
def frameTail (buf : Bytes) : Bytes :=
  if isV2Frame buf && !isBulkFrame buf && gtfBaseSize + jitterMax ≤ buf.length then
    (buf.take (gtfBaseSize + jitterMax)).drop gtfBaseSize
  else []

/-- The flag bits that a caller of the builder may set. -/
def callerFlags : UInt8 := flagTunnel ||| flagDummy ||| flagShardsec

/-- What is read from a frame is what it was built from. -/
structure ReadsBack (h : GtfV2Header) (payload : Bytes) (authTag : Octets 16) (frame : Bytes) :
    Prop where
  length : frame.length = if h.bulk then gtfBulkSize else gtfBaseSize + jitterMax
  v2 : isV2Frame frame = true
  header : parseGtfV2Header frame =
    some { h with
      flags := h.flags ||| if h.bulk then flagBulk else 0
      tail := if h.bulk then List.Vector.replicate 64 0 else h.tail }
  payload : payload <+: extractPayload frame
  authTag : extractAuthTag frame = authTag.toList
  tail : frameTail frame = if h.bulk then [] else h.tail.toList

theorem noBulk_of_callerFlags {h : GtfV2Header} (hflags : h.flags &&& callerFlags = h.flags) :
    h.flags &&& flagBulk = 0 := by
  have hnone : callerFlags &&& flagBulk = 0 := rfl
  rw [← hflags, UInt8.and_assoc, hnone, UInt8.and_zero]

theorem wireFlags_callerFlags {h : GtfV2Header} (hflags : h.flags &&& callerFlags = h.flags) :
    wireFlags h &&& ~~~flagV2 = h.flags ||| if h.bulk then flagBulk else 0 := by
  have hbits : ∀ (flags : BitVec 8) (bulk : Bool),
      UInt8.ofBitVec flags &&& callerFlags = UInt8.ofBitVec flags →
      (flagV2 ||| (UInt8.ofBitVec flags &&& (flagBulk ||| flagTunnel ||| 0x04 ||| flagShardsec)) |||
        (if bulk then flagBulk else 0)) &&& ~~~flagV2 =
          UInt8.ofBitVec flags ||| if bulk then flagBulk else 0 := by
    decide +kernel
  exact hbits h.flags.toBitVec h.bulk hflags

namespace Layout

variable {h : GtfV2Header} {payload frame : Bytes} {authTag : Octets 16}

theorem length_eq (hl : Layout h payload authTag frame) :
    frame.length = if h.bulk then gtfBulkSize else gtfBaseSize + jitterMax := by
  have hlen := hl.tagAt.length_eq
  rw [length_append, authTag.toList_length] at hlen
  rw [← hlen]
  cases h.bulk with
  | true => rfl
  | false =>
      rw [if_neg Bool.false_ne_true, h.tail.toList_length]
      rfl

theorem extractAuthTag_eq (hl : Layout h payload authTag frame)
    (hflags : h.flags &&& flagBulk = 0) : extractAuthTag frame = authTag.toList := by
  have htag : (if h.bulk then v2BulkOffsetAuthTagStart else v2OffsetAuthTagStart) =
      38 + capacity h.bulk := by
    cases h.bulk <;> rfl
  have hend : min (38 + capacity h.bulk + 16) frame.length = 38 + capacity h.bulk + 16 :=
    min_eq_left hl.tagAt.block.1
  rw [extractAuthTag, hl.isV2Frame_eq, hl.isBulkFrame_eq hflags, if_pos rfl, htag, hend,
    if_pos le_rfl, drop_take, Nat.add_sub_cancel_left, hl.tagAt.2]
  exact take_left' authTag.toList_length

theorem frameTail_eq (hl : Layout h payload authTag frame) (hflags : h.flags &&& flagBulk = 0) :
    frameTail frame = if h.bulk then [] else h.tail.toList := by
  have hlen := hl.length_eq
  rw [frameTail, hl.isV2Frame_eq, hl.isBulkFrame_eq hflags]
  cases hbulk : h.bulk with
  | true => rfl
  | false =>
      have htail := toList_of_blockAt (hl.tailAt hbulk)
      have hlong : decide (gtfBaseSize + jitterMax ≤ frame.length) = true := by
        rw [hlen, hbulk]
        rfl
      rw [hlong, if_neg Bool.false_ne_true]
      show (frame.take (gtfBaseSize + jitterMax)).drop gtfBaseSize = h.tail.toList
      rw [drop_take, Nat.add_sub_cancel_left]
      exact htail.symm

theorem readsBack (hl : Layout h payload authTag frame)
    (hflags : h.flags &&& callerFlags = h.flags) (hcounter : h.counter < 2 ^ 64)
    (hepoch : h.epoch < 2 ^ 64) : ReadsBack h payload authTag frame where
  length := hl.length_eq
  v2 := hl.isV2Frame_eq
  header := by
    rw [hl.parseGtfV2Header_eq (noBulk_of_callerFlags hflags) hcounter hepoch,
      wireFlags_callerFlags hflags]
  payload := by
    rw [hl.extractPayload_eq (noBulk_of_callerFlags hflags)]
    exact prefix_append payload _
  authTag := hl.extractAuthTag_eq (noBulk_of_callerFlags hflags)
  tail := hl.frameTail_eq (noBulk_of_callerFlags hflags)

end Layout

/-- Frames of version 2 are read back, and frames of version 1 are not taken for them. -/
theorem frames_read_back (h : GtfV2Header) (hflags : h.flags &&& callerFlags = h.flags)
    (hcounter : h.counter < 2 ^ 64) (hepoch : h.epoch < 2 ^ 64) (payload : Bytes)
    (hfits : payload.length ≤ capacity h.bulk) (authTag : Octets 16) :
    (∃ frame, InPlace.tryBuildGtfV2Frame h payload authTag = some (.ok frame) ∧
        ReadsBack h payload authTag frame) ∧
      ∀ sessionHash counter shardIndex payload authTag bulk jitter frame,
        InPlace.buildGtfFrame sessionHash counter shardIndex payload authTag bulk jitter =
          some frame → isV2Frame frame = false := by
  constructor
  · obtain ⟨frame, hframe⟩ : ∃ frame, tryBuildGtfV2Frame h payload authTag = .ok frame :=
      ⟨_, if_neg (not_lt.mpr hfits)⟩
    refine ⟨frame, ?_, (layout_of_build hframe).readsBack hflags hcounter hepoch⟩
    rw [InPlace.tryBuildGtfV2Frame_eq, hframe]
  · intro sessionHash counter shardIndex payload authTag bulk jitter frame hframe
    rw [InPlace.buildGtfFrame_eq] at hframe
    exact isV2Frame_of_buildGtfFrame hframe

/-- A privacy frame with two of the caller's bits. -/
def coverHeader : GtfV2Header where
  sessionHash := ⟨[1, 2, 3, 4], rfl⟩
  counter := 0x100000007
  epoch := 9
  nonce := List.Vector.replicate 12 5
  shardIndex := 2
  flags := flagTunnel ||| flagDummy
  bulk := false
  tail := List.Vector.replicate 64 6

theorem coverHeader_reads_back :
    (∃ frame, InPlace.tryBuildGtfV2Frame coverHeader [112, 97, 121]
        (List.Vector.replicate 16 0xAB) = some (.ok frame) ∧
        ReadsBack coverHeader [112, 97, 121] (List.Vector.replicate 16 0xAB) frame) ∧
      ∀ sessionHash counter shardIndex payload authTag bulk jitter frame,
        InPlace.buildGtfFrame sessionHash counter shardIndex payload authTag bulk jitter =
          some frame → isV2Frame frame = false :=
  frames_read_back coverHeader rfl (by decide) (by decide) [112, 97, 121] (by decide)
    (List.Vector.replicate 16 0xAB)

end Vantablack.Send
