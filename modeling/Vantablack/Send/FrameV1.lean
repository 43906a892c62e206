import Vantablack.Send.ReadBack

/-!
Frames of version 1, `build_gtf_frame` of `ghost/net/mod.rs`, and what the receive path reads from
them. Every handshake travels in such frames, without a session hash and with the counter 0 for an
offer and 1 for an answer.
-/

namespace Vantablack.Send

open Lib Layers Receive

def maxPayloadLen : ℕ := 486

def maxBulkPayloadLen : ℕ := 1446

/-- The random padding of a privacy frame is passed in; `none` is a panic. -/
def buildGtfFrame (sessionHash : Octets 4) (counter : ℕ) (shardIndex : UInt8) (payload : Bytes)
    (authTag : Octets 16) (bulk : Bool) (jitter : Bytes) : Option Bytes :=
  let bulk := bulk || maxPayloadLen < payload.length
  let room := if bulk then maxBulkPayloadLen else maxPayloadLen
  if room < payload.length then none
  else
    some (sessionHash.toList ++ (toBeBytes 4 counter ++ (shardIndex ::
      (if bulk then flagBulk else 0) :: (payload ++ (List.replicate (room - payload.length) 0 ++
        (authTag.toList ++ if bulk then [] else jitter))))))

variable {frame jitter : Bytes} {bulk : Bool}

theorem isV2Frame_of_buildGtfFrame {sessionHash : Octets 4} {counter : ℕ} {shardIndex : UInt8}
    {payload : Bytes} {authTag : Octets 16}
    (hbuild : buildGtfFrame sessionHash counter shardIndex payload authTag bulk jitter =
      some frame) : isV2Frame frame = false := by
  unfold buildGtfFrame at hbuild
  dsimp only at hbuild
  generalize (bulk || decide (maxPayloadLen < payload.length)) = bulk at hbuild
  by_cases hlen : (if bulk then maxBulkPayloadLen else maxPayloadLen) < payload.length
  · rw [if_pos hlen] at hbuild
    cases hbuild
  · rw [if_neg hlen] at hbuild
    have h0 := RestAt.start frame
    cases hbuild
    have h9 := (h0.block.skip (length_toBeBytes 4 _)).next
    rw [isV2Frame, parseFlags, h9.getElem?, Option.getD_some]
    cases bulk <;> rfl

/-- The frame of one shard of a handshake message. -/
def handshakeFrame (rs : ReedSolomon) (answer : Bool) (pdu : Bytes) (bulk : Bool) (jitter : Bytes)
    (i : Fin 3) : Option Bytes :=
  buildGtfFrame (List.Vector.replicate 4 0) (if answer then 1 else 0) (UInt8.ofNat i)
    (frameShard ((encode rs pdu)[i.1]?.getD [])) (List.Vector.replicate 16 0) bulk jitter

/-- What the receive path reads from a frame of version 1. -/
structure ReadsV1 (frame : Bytes) (sessionHash : Octets 4) (counter : ℕ) (shardIndex : UInt8)
    (payload : Bytes) : Prop where
  length : minFrameSize ≤ frame.length
  v2 : V2FrameMeta.of frame = none
  counter : parsePacketCounterU64 frame = counter
  sessionHash : parseSessionHash frame = sessionHash
  notTunnel : parseFlags frame &&& flagTunnel = 0
  shardIndex : frame[8]? = some shardIndex
  payload : ∃ rest, extractPayload frame = payload ++ rest

theorem readsV1_of_build {sessionHash : Octets 4} {counter : ℕ} {shardIndex : UInt8}
    {payload : Bytes} {authTag : Octets 16} (hcounter : counter < 2 ^ 32)
    (hbuild : buildGtfFrame sessionHash counter shardIndex payload authTag bulk jitter =
      some frame) : ReadsV1 frame sessionHash counter shardIndex payload := by
  have hv1 := isV2Frame_of_buildGtfFrame hbuild
  unfold buildGtfFrame at hbuild
  dsimp only at hbuild
  generalize (bulk || decide (maxPayloadLen < payload.length)) = bulk at hbuild
  by_cases hlen : (if bulk then maxBulkPayloadLen else maxPayloadLen) < payload.length
  · rw [if_pos hlen] at hbuild
    cases hbuild
  · rw [if_neg hlen] at hbuild
    have h0 := RestAt.start frame
    cases hbuild
    have hhash := h0.blockAt
    have h4 := h0.block
    have h8 := h4.skip (length_toBeBytes 4 _)
    have h9 := h8.next
    have h10 := h9.next
    generalize sessionHash.toList ++ _ = frame at hv1 hhash h4 h8 h9 h10 ⊢
    have hflags : parseFlags frame = if bulk then flagBulk else 0 := by
      rw [parseFlags, h9.getElem?, Option.getD_some]
    have hbulk : isBulkFrame frame = bulk := by
      rw [isBulkFrame, hflags]
      cases bulk <;> rfl
    have hheader : parseGtfV2Header frame = none := by
      rw [parseGtfV2Header, hv1]
      rfl
    have hroom : 10 + (if bulk then maxBulkPayloadLen else maxPayloadLen) =
        if bulk then 1456 else 496 := by
      cases bulk <;> rfl
    have hfilled : (payload ++ List.replicate
        ((if bulk then maxBulkPayloadLen else maxPayloadLen) - payload.length) (0 : UInt8)).length =
          if bulk then maxBulkPayloadLen else maxPayloadLen := by
      rw [List.length_append, List.length_replicate]
      omega
    have hlong : minFrameSize ≤ frame.length := by
      have hend := (h10.skip rfl).skip (List.length_replicate ..)
      have hsmall : 32 ≤ 10 + (if bulk then maxBulkPayloadLen else maxPayloadLen) := by
        cases bulk <;> decide
      have hat := hend.1
      rw [minFrameSize]
      omega
    refine
      { length := hlong
        v2 := by rw [V2FrameMeta.of, hheader, Option.map_none]
        counter := ?_
        sessionHash := by rw [parseSessionHash, hhash, Option.getD_some]
        notTunnel := by rw [hflags]; cases bulk <;> rfl
        shardIndex := h8.getElem?
        payload := ?_ }
    · rw [parsePacketCounterU64, hheader]
      show parsePacketCounter frame = counter
      rw [parsePacketCounter, h4.sliceAt (length_toBeBytes 4 _), Option.getD_some,
        fromBeBytes_toBeBytes hcounter]
    · refine ⟨List.replicate
        ((if bulk then maxBulkPayloadLen else maxPayloadLen) - payload.length) 0, ?_⟩
      rw [extractPayload, hv1, hbulk, ← hroom, if_neg Bool.false_ne_true, List.drop_take, h10.2,
        ← List.append_assoc]
      exact List.take_left' (hfilled.trans (Nat.add_sub_cancel_left _ _).symm)

def handshakeKey (answer : Bool) (src : SocketAddr) : SpoolKey where
  sessionHash := List.Vector.replicate 4 0
  epoch := 0
  counter := if answer then 1 else 0
  preSessionSrc := some src

theorem readsV1_handshakeFrame {rs : ReedSolomon} {answer : Bool} {pdu : Bytes} {i : Fin 3}
    (h : handshakeFrame rs answer pdu bulk jitter i = some frame) :
    ReadsV1 frame (List.Vector.replicate 4 0) (if answer then 1 else 0) (UInt8.ofNat i)
      (frameShard ((encode rs pdu)[i.1]?.getD [])) := by
  refine readsV1_of_build ?_ h
  cases answer <;> decide

theorem spoolKey_handshakeFrame {rs : ReedSolomon} {answer : Bool} {pdu : Bytes} {i : Fin 3}
    (h : handshakeFrame rs answer pdu bulk jitter i = some frame) (src : SocketAddr) :
    SpoolKey.of src frame (V2FrameMeta.of frame) = handshakeKey answer src := by
  have hreads := readsV1_handshakeFrame h
  rw [SpoolKey.of, hreads.v2, hreads.sessionHash, hreads.counter, if_pos rfl]
  rfl

end Vantablack.Send
