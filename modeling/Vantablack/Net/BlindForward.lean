import Vantablack.Net.Tunnel
import Vantablack.Send.InPlace
import Vantablack.Send.RoundTrip

/-!
Blind envelopes of `net/relay.rs`, and `send_datagram_via_relay` of `main.rs`, which hands a built
frame to a relay inside of one. An envelope goes in a single frame if it is short enough, else in
three shards. An error stands for the panic of `build_gtf_v2_frame`.
-/

namespace Vantablack.Net

open Lib Layers Receive Send Session

variable {C : Crypto}

/-! ### Envelopes -/

def blindMagic : Bytes := utf8 "BLND"

def wrapBlindFrame (targetFp : String) (opaqueFrame : Bytes) : Bytes :=
  buildEnvelope blindMagic targetFp 0 opaqueFrame

def blindEnvelope (targetFp : String) (sealedFrame : Bytes) : Bytes :=
  wrapBlindFrame targetFp sealedFrame

theorem length_blindMagic : blindMagic.length = 4 := by
  decide +kernel

theorem length_blindEnvelope (targetFp : String) (sealedFrame : Bytes) :
    (blindEnvelope targetFp sealedFrame).length = 40 + sealedFrame.length :=
  length_buildEnvelope length_blindMagic targetFp 0 sealedFrame

theorem parseBlindFrame_blindEnvelope {fp : String} (hfp : FitsHeader fp) (sealedFrame : Bytes) :
    parseBlindFrame (blindEnvelope fp sealedFrame) = some (fp, sealedFrame) := by
  have hfixed : (utf8 fp).take 32 = utf8 fp := List.take_of_length_le hfp.1
  have hstart := RestAt.start (blindEnvelope fp sealedFrame)
  have hhops := RestAt.skip (l := blindMagic) hstart length_blindMagic
  have hname := hhops.skip (length_toBeBytes 4 _)
  have hinner := hname.block
  have hlong : ¬ (blindEnvelope fp sealedFrame).length < 40 := not_lt.mpr hinner.1
  have htake : (blindEnvelope fp sealedFrame).take 4 = utf8 "BLND" := List.take_left' length_blindMagic
  have hcount : fromBeBytes (toBeBytes 4 (0 : UInt32).toNat) = 0 := rfl
  rw [parseBlindFrame, if_neg (not_or.mpr ⟨hlong, not_not.mpr htake⟩),
    show (blindEnvelope fp sealedFrame).drop 4 = _ from hhops.2,
    show (blindEnvelope fp sealedFrame).drop 8 = _ from hname.2,
    show (blindEnvelope fp sealedFrame).drop 40 = _ from hinner.2,
    List.take_left' (length_toBeBytes 4 _), List.take_left' (List.Vector.toList_length _), hfixed,
    takeWhile_zeroPadded hfp.1 hfp.2, hcount, if_neg (not_not.mpr rfl), ← fromUtf8, fromUtf8_utf8]
  rfl

/-! ### Sending -/

/-- What is handed to the socket. Without a session with the relay there is nothing to send. -/
def sendDatagramViaRelay (rs : ReedSolomon) (A : Aead C) (shardsec : Bool)
    (session : Option (SealCtx C)) (targetFp : String) (datagram : Bytes) :
    Except String (List Bytes) :=
  let envelope := blindEnvelope targetFp datagram
  match session with
  | none => .ok []
  | some ctx =>
      if envelope.length + 2 ≤ v2MaxBulkPayloadLen then
        (sealSingle A ctx envelope).map fun frame => [frame]
      else
        let (carriers, tag) := encSplit rs A shardsec ctx envelope
        (carriers.take 3).zipIdx.mapM fun (carrier, i) =>
          tryBuildGtfV2Frame (ctx.dataHeader A shardsec (UInt8.ofNat i) true 0) carrier tag

theorem sealSingle_isOk_iff {A : Aead C} (hA : A.Lawful) {ctx : SealCtx C} {payload : Bytes} :
    (∃ frame, sealSingle A ctx payload = .ok frame ∧ frame.length = gtfBulkSize) ↔
      payload.length ≤ 1398 := by
  constructor
  · rintro ⟨frame, hframe, -⟩
    unfold sealSingle at hframe
    dsimp only at hframe
    have hfits := (layout_of_build hframe).fits
    rw [length_frameShard, hA.length_seal, length_framedPayload] at hfits
    have hcap : capacity (ctx.header A 0 true flagTunnel).bulk = 1418 := rfl
    omega
  · exact sealSingle_eq_ok hA ctx

section

variable {rs : ReedSolomon} {A : Aead C} {shardsec : Bool} {ctx : SealCtx C} {targetFp : String}
  {datagram : Bytes}

theorem sendDatagramViaRelay_single
    (hshort : (blindEnvelope targetFp datagram).length + 2 ≤ v2MaxBulkPayloadLen) :
    sendDatagramViaRelay rs A shardsec (some ctx) targetFp datagram =
      (sealSingle A ctx (blindEnvelope targetFp datagram)).map fun frame => [frame] :=
  if_pos hshort

theorem sendDatagramViaRelay_split {frame : Fin 3 → Bytes}
    (hlong : ¬ (blindEnvelope targetFp datagram).length + 2 ≤ v2MaxBulkPayloadLen)
    (hframe : ∀ i, dataFrame rs A shardsec true ctx (blindEnvelope targetFp datagram) i =
      .ok (frame i)) :
    sendDatagramViaRelay rs A shardsec (some ctx) targetFp datagram =
      .ok [frame 0, frame 1, frame 2] := by
  obtain ⟨a, b, c, hshards⟩ := List.length_eq_three.mp
    (length_encSplit rs A shardsec ctx (blindEnvelope targetFp datagram))
  have hbuild : ∀ (i : Fin 3), tryBuildGtfV2Frame (ctx.dataHeader A shardsec (UInt8.ofNat i) true 0)
      ([a, b, c][i.1]?.getD [])
      (encSplit rs A shardsec ctx (blindEnvelope targetFp datagram)).2 = .ok (frame i) := by
    intro i
    rw [← hshards]
    exact hframe i
  have h0 : tryBuildGtfV2Frame (ctx.dataHeader A shardsec (UInt8.ofNat 0) true 0) a _ = _ :=
    hbuild 0
  have h1 : tryBuildGtfV2Frame (ctx.dataHeader A shardsec (UInt8.ofNat 1) true 0) b _ = _ :=
    hbuild 1
  have h2 : tryBuildGtfV2Frame (ctx.dataHeader A shardsec (UInt8.ofNat 2) true 0) c _ = _ :=
    hbuild 2
  unfold sendDatagramViaRelay
  dsimp only
  rw [if_neg hlong, hshards]
  show [(a, 0), (b, 1), (c, 2)].mapM _ = _
  simp only [List.mapM_cons, List.mapM_nil, h0, h1, h2]
  rfl

theorem single_iff :
    (blindEnvelope targetFp datagram).length + 2 ≤ v2MaxBulkPayloadLen ↔ datagram.length ≤ 1376 := by
  rw [length_blindEnvelope, v2MaxBulkPayloadLen]
  omega

theorem single_sent_iff (hA : A.Lawful)
    (hsingle : (blindEnvelope targetFp datagram).length + 2 ≤ v2MaxBulkPayloadLen) :
    (∃ frame, sendDatagramViaRelay rs A shardsec (some ctx) targetFp datagram = .ok [frame] ∧
        frame.length = gtfBulkSize) ↔ datagram.length ≤ 1358 := by
  have hsealed : (∃ frame, sealSingle A ctx (blindEnvelope targetFp datagram) = .ok frame ∧
      frame.length = gtfBulkSize) ↔ datagram.length ≤ 1358 := by
    rw [sealSingle_isOk_iff hA, length_blindEnvelope]
    omega
  rw [← hsealed, sendDatagramViaRelay_single hsingle]
  refine exists_congr fun frame => and_congr_left fun _ => ?_
  cases sealSingle A ctx (blindEnvelope targetFp datagram) with
  | error e => exact iff_of_false nofun nofun
  | ok built => simp [Except.map]

/-- A bulk frame that a node builds is handed over in three frames. With shard security any two of
them bring it to the relay under the name of its target; without it they bring nothing. -/
theorem bulk_frame_relayed (hrs : rs.Lawful) (hA : A.Lawful) {h : GtfV2Header} {payload : Bytes}
    {authTag : Octets 16} (hbulk : h.bulk = true)
    (hbuild : tryBuildGtfV2Frame h payload authTag = .ok datagram) (hfp : FitsHeader targetFp)
    (hauth : A.Authentic rs shardsec ctx (blindEnvelope targetFp datagram)) {rx : RxContext C}
    (hrx : Awaits rx ctx) {src : Fin 3 → SocketAddr}
    (hsrc : ctx.sessionHash = List.Vector.replicate 4 0 → ∀ i j, src i = src j)
    (hroom : rx.spool.size < maxSpoolEntries)
    (hfresh : rx.spool.lookup (messageKey ctx (src 0)) = none) (now : Fin 3 → ℕ)
    {order : List (Fin 3)} (hnodup : order.Nodup) (htwo : 2 ≤ order.length) :
    ∃ frame : Fin 3 → Bytes,
      sendDatagramViaRelay rs A shardsec (some ctx) targetFp datagram =
        .ok [frame 0, frame 1, frame 2] ∧
      (receiveAll rs A rx (order.map fun i => (frame i, src i, now i))).map parseBlindFrame =
        if shardsec then [some (targetFp, datagram)] else [] := by
  have hlong : datagram.length = 1472 := by
    rw [(layout_of_build hbuild).length_eq, hbulk]
    rfl
  have hsplit : ¬ (blindEnvelope targetFp datagram).length + 2 ≤ v2MaxBulkPayloadLen :=
    mt single_iff.mp (by omega)
  have hroom' : ((blindEnvelope targetFp datagram).length + 3) / 2 +
      (if shardsec then 18 else 10) ≤ capacity true := by
    rw [length_blindEnvelope, hlong]
    cases shardsec <;> decide
  obtain ⟨frame, hframe⟩ : ∃ frame : Fin 3 → Bytes,
      ∀ i, dataFrame rs A shardsec true ctx (blindEnvelope targetFp datagram) i = .ok (frame i) :=
    exists_dataFrames hrs hA hroom'
  refine ⟨frame, sendDatagramViaRelay_split hsplit hframe, ?_⟩
  rw [receiveAll_frames hrs hA hauth hframe hrx (messageKey_eq hsrc) hroom hfresh now hnodup htwo]
  cases shardsec with
  | false => rfl
  | true =>
      show [parseBlindFrame (blindEnvelope targetFp datagram)] = _
      rw [parseBlindFrame_blindEnvelope hfp]
      rfl

end

/-- The test for a single frame does not count the tag: datagrams of 1359 to 1376 bytes pass it
and do not fit. -/
theorem single_frame_fits_iff (rs : ReedSolomon) (A : Aead C) (hA : A.Lawful) (shardsec : Bool)
    (ctx : SealCtx C) (targetFp : String) (datagram : Bytes) :
    ((blindEnvelope targetFp datagram).length + 2 ≤ v2MaxBulkPayloadLen →
        ∃ frame, sendDatagramViaRelay rs A shardsec (some ctx) targetFp datagram = .ok [frame] ∧
          frame.length = gtfBulkSize) ↔
      datagram.length ≤ 1358 ∨ 1376 < datagram.length := by
  constructor
  · intro hsent
    by_cases hshort : datagram.length ≤ 1376
    · have hsingle : (blindEnvelope targetFp datagram).length + 2 ≤ v2MaxBulkPayloadLen :=
        single_iff.mpr hshort
      exact Or.inl ((single_sent_iff hA hsingle).mp (hsent hsingle))
    · exact Or.inr (not_le.mp hshort)
  · intro hlen hsingle
    have hshort : datagram.length ≤ 1358 :=
      hlen.resolve_right (not_lt.mpr (single_iff.mp hsingle))
    exact (single_sent_iff hA hsingle).mpr hshort

/-- A privacy frame goes in one frame. -/
theorem privacy_frame_fits :
    ∃ frame, sendDatagramViaRelay galois8 firstAead false (some firstCtx) "peer"
      (List.replicate 576 0) = .ok [frame] ∧ frame.length = gtfBulkSize :=
  (single_frame_fits_iff galois8 firstAead firstAead_lawful false firstCtx "peer"
    (List.replicate 576 0)).mpr (Or.inl (by rw [List.length_replicate]; decide))
    (single_iff.mpr (by rw [List.length_replicate]; decide))

/-- A cipher whose tags, under the key of this message, hold the nonces. -/
def noncesAead : Aead .symbolic :=
  .tagging
    (fun key nonce epoch direction aad =>
      if (key, epoch, direction, aad) = (firstCtx.key, firstCtx.epoch, firstCtx.direction, []) then
        Block.zeroPadded 16 (1 :: nonce.toList)
      else List.Vector.replicate 16 0)
    fun key _ _ _ => key

theorem noncesAead_authentic (pay : Bytes) : noncesAead.Authentic galois8 true firstCtx pay := by
  have htake : ∀ nonce : Octets 12,
      (Block.zeroPadded 16 (1 :: nonce.toList)).toList.take 13 = 1 :: nonce.toList := fun nonce =>
    (Block.take_zeroPadded (by simp) (by simp)).trans (List.take_of_length_le (by simp))
  rw [Aead.Authentic, if_pos rfl]
  intro i shard _
  apply Aead.tagging_opensOnly
  intro key' nonce' epoch' direction' aad' heq
  replace heq := congrArg (fun tag => tag.toList.take 13) heq
  have hkey : noncesAead.shardKey firstCtx.key firstCtx.epoch firstCtx.nonce (UInt8.ofNat i) =
      firstCtx.key := rfl
  rw [hkey, if_pos rfl, htake] at heq
  split at heq
  · rename_i hsame
    rw [htake] at heq
    obtain rfl := Block.toList_inj.mp (List.cons.inj heq).2
    simp only [Prod.mk.injEq] at hsame ⊢
    exact ⟨hsame.1, trivial, hsame.2⟩
  · exact absurd (List.cons.inj heq).1 (by decide)

theorem bulk_frame_relayed_or_not :
    ∃ datagram,
      tryBuildGtfV2Frame (firstCtx.dataHeader firstAead false 0 true 0) []
        (List.Vector.replicate 16 0) = .ok datagram ∧
      (∃ frame : Fin 3 → Bytes,
        sendDatagramViaRelay galois8 firstAead false (some firstCtx) "peer" datagram =
          .ok [frame 0, frame 1, frame 2] ∧
        (receiveAll galois8 firstAead firstRx ([2, 0].map fun i => (frame i, localhost, 0))).map
          parseBlindFrame = []) ∧
      ∃ frame : Fin 3 → Bytes,
        sendDatagramViaRelay galois8 noncesAead true (some firstCtx) "peer" datagram =
          .ok [frame 0, frame 1, frame 2] ∧
        (receiveAll galois8 noncesAead firstRx ([2, 0].map fun i => (frame i, localhost, 0))).map
          parseBlindFrame = [some ("peer", datagram)] := by
  obtain ⟨datagram, hbuild⟩ : ∃ datagram, tryBuildGtfV2Frame
    (firstCtx.dataHeader firstAead false 0 true 0) [] (List.Vector.replicate 16 0) = .ok datagram :=
      ⟨_, rfl⟩
  refine ⟨datagram, hbuild, ?_, ?_⟩
  · exact bulk_frame_relayed galois8_lawful firstAead_lawful rfl hbuild
      ⟨by decide +kernel, by decide +kernel⟩ (firstAead_authentic _) awaits_firstRx
      (fun _ _ _ => rfl) (by decide) (AList.lookup_empty _) (fun _ => 0) (by decide) (by decide)
  · exact bulk_frame_relayed galois8_lawful (Aead.tagging_lawful _ _) rfl hbuild
      ⟨by decide +kernel, by decide +kernel⟩ (noncesAead_authentic _) awaits_firstRx
      (fun _ _ _ => rfl) (by decide) (AList.lookup_empty _) (fun _ => 0) (by decide) (by decide)

/-- One byte more than fits. -/
theorem long_datagram_panics :
    (blindEnvelope "peer" (List.replicate 1359 0)).length + 2 ≤ v2MaxBulkPayloadLen ∧
      sendDatagramViaRelay galois8 firstAead false (some firstCtx) "peer" (List.replicate 1359 0) =
        .error "payload exceeds GTF v2 capacity" := by
  have hsingle : (blindEnvelope "peer" (List.replicate 1359 0)).length + 2 ≤ v2MaxBulkPayloadLen :=
    single_iff.mpr (by rw [List.length_replicate]; decide)
  have hlong : capacity (firstCtx.header firstAead 0 true flagTunnel).bulk <
      (frameShard (firstAead.xchachaSeal firstCtx.key firstCtx.nonce firstCtx.epoch
        firstCtx.direction [] (framedPayload
          (blindEnvelope "peer" (List.replicate 1359 0))))).length := by
    rw [length_frameShard, firstAead_lawful.length_seal, length_framedPayload,
      length_blindEnvelope, List.length_replicate]
    decide
  refine ⟨hsingle, ?_⟩
  rw [sendDatagramViaRelay_single hsingle, sealSingle, tryBuildGtfV2Frame, if_pos hlong]
  rfl

end Vantablack.Net
