import Vantablack.Send.Seal

/-!
What the receive path reads from a frame that `try_build_gtf_v2_frame` built: the header fields,
the flag bits and, at the front of the payload region, the framed shard.
-/

namespace Vantablack.Send

open Lib Layers Session Receive

variable {C : Crypto}

/-! ### The flags byte -/

/-- The header of a data message: its bulk bit is set by the builder and no other bit but that
of ShardSec. -/
def DataFlags (h : GtfV2Header) (shardsec : Bool) : Prop :=
  h.flags = if shardsec then flagShardsec else 0

theorem DataFlags.noBulk {h : GtfV2Header} {shardsec : Bool} (hflags : DataFlags h shardsec) :
    h.flags &&& flagBulk = 0 := by
  rw [hflags]
  cases shardsec <;> rfl

theorem wireFlags_v2 (h : GtfV2Header) : wireFlags h &&& flagV2 ≠ 0 := by
  have hbits : ∀ (flags : BitVec 8) (bulk : Bool),
      (flagV2 ||| (UInt8.ofBitVec flags &&& (flagBulk ||| flagTunnel ||| 0x04 ||| flagShardsec)) |||
        (if bulk then flagBulk else 0)) &&& flagV2 ≠ 0 := by
    decide +kernel
  exact hbits h.flags.toBitVec h.bulk

theorem wireFlags_bulk {h : GtfV2Header} (hflags : h.flags &&& flagBulk = 0) :
    decide (wireFlags h &&& flagBulk ≠ 0) = h.bulk := by
  have hbits : ∀ (flags : BitVec 8) (bulk : Bool), UInt8.ofBitVec flags &&& flagBulk = 0 →
      decide ((flagV2 |||
        (UInt8.ofBitVec flags &&& (flagBulk ||| flagTunnel ||| 0x04 ||| flagShardsec)) |||
          (if bulk then flagBulk else 0)) &&& flagBulk ≠ 0) = bulk := by
    decide +kernel
  exact hbits h.flags.toBitVec h.bulk hflags

theorem wireFlags_bits {h : GtfV2Header} {shardsec : Bool} (hflags : DataFlags h shardsec) :
    wireFlags h &&& flagTunnel = 0 ∧
      decide ((wireFlags h &&& ~~~flagV2) &&& flagShardsec ≠ 0) = shardsec := by
  rw [wireFlags, hflags]
  cases shardsec <;> cases h.bulk <;> decide

/-! ### The layout -/

@[simp] theorem length_slack (h : GtfV2Header) (n : ℕ) : (slack h n).length = n := by
  unfold slack
  split
  · rw [List.length_replicate]
  · have hword : ∀ i ∈ List.range ((n + 7) / 8),
        (slackWord (slackSeed h + UInt64.ofNat (i + 1) * golden)).length = 8 := by
      intro i _
      rw [slackWord, List.length_reverse, length_toBeBytes]
    rw [List.length_take, List.length_flatMap, List.map_congr_left hword, List.map_const',
      List.sum_replicate, List.length_range, smul_eq_mul]
    omega

/-- The fields of a built frame, each at its place. -/
structure Layout (h : GtfV2Header) (payload : Bytes) (authTag : Octets 16) (frame : Bytes) :
    Prop where
  sessionHash : blockAt frame 0 4 = some h.sessionHash
  shardIndex : frame[8]? = some h.shardIndex
  flags : parseFlags frame = wireFlags h
  counter : sliceAt frame 10 8 = some (toBeBytes 8 h.counter)
  epoch : sliceAt frame 18 8 = some (toBeBytes 8 h.epoch)
  nonce : blockAt frame 26 12 = some h.nonce
  region : RestAt frame 38 (payload ++ (slack h (capacity h.bulk - payload.length) ++
    (authTag.toList ++ if h.bulk then [] else h.tail.toList)))
  fits : payload.length ≤ capacity h.bulk

theorem layout_of_build {h : GtfV2Header} {payload frame : Bytes} {authTag : Octets 16}
    (hbuild : tryBuildGtfV2Frame h payload authTag = .ok frame) :
    Layout h payload authTag frame := by
  unfold tryBuildGtfV2Frame at hbuild
  split at hbuild
  · cases hbuild
  · rename_i hlen
    have h0 := RestAt.start frame
    cases hbuild
    have h4 := h0.block
    have h8 := h4.skip (List.length_replicate ..)
    have h9 := h8.next
    have h10 := h9.next
    have h18 := h10.skip (length_toBeBytes 8 _)
    have h26 := h18.skip (length_toBeBytes 8 _)
    exact
      { sessionHash := h0.blockAt
        shardIndex := h8.getElem?
        flags := by rw [parseFlags, h9.getElem?, Option.getD_some]
        counter := h10.sliceAt (length_toBeBytes 8 _)
        epoch := h18.sliceAt (length_toBeBytes 8 _)
        nonce := h26.blockAt
        region := h26.block
        fits := not_lt.mp hlen }

namespace Layout

variable {h : GtfV2Header} {payload frame : Bytes} {authTag : Octets 16}

theorem tagAt (hl : Layout h payload authTag frame) :
    RestAt frame (38 + capacity h.bulk) (authTag.toList ++ if h.bulk then [] else h.tail.toList) := by
  have hpast := (hl.region.skip rfl).skip (length_slack h _)
  have hpos : 38 + payload.length + (capacity h.bulk - payload.length) = 38 + capacity h.bulk := by
    have := hl.fits
    omega
  rwa [hpos] at hpast

theorem tailAt (hl : Layout h payload authTag frame) (hpriv : h.bulk = false) :
    blockAt frame gtfBaseSize jitterMax = some h.tail := by
  have hpast := hl.tagAt.block
  rw [hpriv] at hpast
  have htail : RestAt frame gtfBaseSize (h.tail.toList ++ []) := by
    rw [List.append_nil]
    exact hpast
  exact htail.blockAt

theorem isV2Frame_eq (hl : Layout h payload authTag frame) : isV2Frame frame = true := by
  rw [isV2Frame, hl.flags]
  exact decide_eq_true (wireFlags_v2 h)

theorem isBulkFrame_eq (hl : Layout h payload authTag frame) (hflags : h.flags &&& flagBulk = 0) :
    isBulkFrame frame = h.bulk := by
  rw [isBulkFrame, hl.flags]
  exact wireFlags_bulk hflags

theorem extractPayload_eq (hl : Layout h payload authTag frame)
    (hflags : h.flags &&& flagBulk = 0) :
    extractPayload frame = payload ++ slack h (capacity h.bulk - payload.length) := by
  have htag : (if h.bulk then 1456 else 496) = 38 + capacity h.bulk := by
    cases h.bulk <;> rfl
  have hlen : (payload ++ slack h (capacity h.bulk - payload.length)).length =
      capacity h.bulk := by
    have := hl.fits
    rw [List.length_append, length_slack]
    omega
  rw [extractPayload, hl.isV2Frame_eq, hl.isBulkFrame_eq hflags, htag, if_pos rfl,
    List.drop_take, hl.region.2, ← List.append_assoc]
  exact List.take_left' (hlen.trans (Nat.add_sub_cancel_left _ _).symm)

theorem parseGtfV2Header_eq (hl : Layout h payload authTag frame)
    (hflags : h.flags &&& flagBulk = 0) (hcounter : h.counter < 2 ^ 64) (hepoch : h.epoch < 2 ^ 64) :
    parseGtfV2Header frame =
      some { h with
        flags := wireFlags h &&& ~~~flagV2
        tail := if h.bulk then List.Vector.replicate 64 0 else h.tail } := by
  have hlong : ¬ frame.length < 38 := not_lt.mpr hl.region.1
  have hc : fromBeBytes (toBeBytes 8 h.counter) = h.counter := fromBeBytes_toBeBytes hcounter
  have he : fromBeBytes (toBeBytes 8 h.epoch) = h.epoch := fromBeBytes_toBeBytes hepoch
  simp only [parseGtfV2Header, hl.isV2Frame_eq, hl.isBulkFrame_eq hflags, hlong,
    hl.sessionHash, hl.counter, hl.epoch, hl.nonce, hl.shardIndex, hl.flags, hc, he, Bool.not_true,
    decide_false, Bool.or_self, Bool.false_eq_true, if_false, Option.bind_eq_bind,
    Option.bind_some]
  cases hbulk : h.bulk with
  | true => rfl
  | false =>
      have htail := congrArg (Option.getD · (List.Vector.replicate 64 0)) (hl.tailAt hbulk)
      simp only [Option.some.injEq, GtfV2Header.mk.injEq, true_and]
      exact htail

end Layout

/-- What the receive path makes of a data frame. -/
structure ReadsAs (frame : Bytes) (h : GtfV2Header) (shardsec : Bool) (payload : Bytes) :
    Prop where
  length : minFrameSize ≤ frame.length
  v2 : V2FrameMeta.of frame =
    some { epoch := h.epoch, nonce := h.nonce, bulk := h.bulk
           tail := if h.bulk then List.Vector.replicate 64 0 else h.tail, shardsec := shardsec }
  counter : parsePacketCounterU64 frame = h.counter
  sessionHash : parseSessionHash frame = h.sessionHash
  notTunnel : parseFlags frame &&& flagTunnel = 0
  shardIndex : frame[8]? = some h.shardIndex
  payload : ∃ rest, extractPayload frame = payload ++ rest

theorem readsAs_of_build {h : GtfV2Header} {shardsec : Bool} {payload frame : Bytes}
    {authTag : Octets 16} (hflags : DataFlags h shardsec) (hcounter : h.counter < 2 ^ 64)
    (hepoch : h.epoch < 2 ^ 64) (hbuild : tryBuildGtfV2Frame h payload authTag = .ok frame) :
    ReadsAs frame h shardsec payload := by
  have hl := layout_of_build hbuild
  have hparse := hl.parseGtfV2Header_eq hflags.noBulk hcounter hepoch
  obtain ⟨htunnel, hshardsec⟩ := wireFlags_bits hflags
  refine
    { length := le_trans (by decide) hl.region.1
      v2 := ?_
      counter := by rw [parsePacketCounterU64, hparse]
      sessionHash := by rw [parseSessionHash, hl.sessionHash, Option.getD_some]
      notTunnel := by rw [hl.flags, htunnel]
      shardIndex := hl.shardIndex
      payload := ⟨_, hl.extractPayload_eq hflags.noBulk⟩ }
  rw [V2FrameMeta.of, hparse, Option.map_some, hshardsec]

end Vantablack.Send
