import Vantablack.Net.Relay
import Vantablack.Send.Seal
import Vantablack.Socks.Pump
import Vantablack.Symbolic

/-!
How long the messages of a SOCKS stream get on their way into a frame. The client's pump gathers
bytes behind a stream id; the exit reads chunks. Either may seal a message end to end and put relay
headers around it before `enc_split` cuts it into shards.
-/

namespace Vantablack.Socks

open Lib Layers Net Send Session

variable {C : Crypto}

/-! ### The client's pump -/

def maxStreamCoalesceBytes : ℕ := 850

inductive PumpEvent where
  /-- A read returns at most this many bytes. -/
  | read (n : ℕ)
  /-- The coalescing window of 200 µs is over. -/
  | timeout

def maxRead (coalesceBuf : Bytes) : ℕ :=
  min (4 + maxStreamCoalesceBytes - coalesceBuf.length) maxStreamCoalesceBytes

/-- What is left in the buffer goes out at the end of the stream. -/
def flushRest (coalesceBuf : Bytes) : List Bytes :=
  if coalesceBuf.isEmpty then [] else [coalesceBuf]

/-- The batches of a client's stream. A read of no bytes is its end. -/
def clientPump (streamId : UInt32) (coalesceBuf input : Bytes) : List PumpEvent → List Bytes
  | [] => flushRest coalesceBuf
  | .read n :: events =>
      let got := input.take (min n (maxRead coalesceBuf))
      if got.isEmpty then flushRest coalesceBuf
      else
        let front := if coalesceBuf.isEmpty then toBeBytes 4 streamId.toNat else coalesceBuf
        let rest := input.drop (min n (maxRead coalesceBuf))
        if 4 + maxStreamCoalesceBytes ≤ (front ++ got).length then
          (front ++ got) :: clientPump streamId [] rest events
        else clientPump streamId (front ++ got) rest events
  | .timeout :: events =>
      if coalesceBuf.isEmpty then clientPump streamId coalesceBuf input events
      else coalesceBuf :: clientPump streamId [] input events

/-! ### Sealing end to end -/

/-- The key of the session with the far end, its next counter and a fresh nonce. -/
structure E2eSeal (C : Crypto) where
  key : C.Key
  role : SessionRole
  dctr : UInt64
  wireNonce : Octets 12

/-- Counter, nonce and ciphertext. -/
def sealE2e (A : Aead C) (e : E2eSeal C) (payload : Bytes) : Bytes :=
  toBeBytes 8 e.dctr.toNat ++ (e.wireNonce.toList ++
    A.xchachaSeal e.key e.wireNonce 0 e.role.sealDirection [] (framedPayload payload))

def wrapOnionE2e (A : Aead C) (e : E2eSeal C) (route : List String) (payload : Bytes) :
    Option Bytes :=
  buildOnionRoute route (sealE2e A e payload)

/-- What the client's pump hands to `enc_split` for a batch. -/
def clientPayload (A : Aead C) (e : E2eSeal C) (onionRoute : Option (List String))
    (batch : Bytes) : Bytes :=
  match onionRoute with
  | some route => (wrapOnionE2e A e route batch).getD batch
  | none => batch

/-- `rbuf` of the exit's read loop. -/
def exitReadBytes : ℕ := 900

/-- What the exit hands to `enc_split` for a chunk. -/
def exitPayload (A : Aead C) (e : E2eSeal C) (peerFp : String) (viaRelay : Bool)
    (streamId : UInt32) (chunk : Bytes) : Bytes :=
  if viaRelay then buildRelayPacket peerFp 1 (sealE2e A e (frameChunk streamId chunk))
  else frameChunk streamId chunk

variable {A : Aead C}

@[simp] theorem length_sealE2e (hA : A.Lawful) (e : E2eSeal C) (payload : Bytes) :
    (sealE2e A e payload).length = 36 + 2 * ((payload.length + 3) / 2) := by
  rw [sealE2e, List.length_append, List.length_append, length_toBeBytes, List.Vector.toList_length,
    hA.length_seal, length_framedPayload]
  omega

/-- The relay headers around a batch. -/
def relayHeaders : Option (List String) → ℕ
  | none => 0
  | some route => if (buildOnionRoute route []).isSome then route.length - 1 else 0

/-! ### Fitting into frames -/

/-- The frames that go out for the shards of a message; one that is too long is left out. -/
def send3Mixed (A : Aead C) (shardsec : Bool) (ctx : SealCtx C) (f : List Bytes)
    (tag : Octets 16) : List Bytes :=
  ((f.take 3).mapIdx fun i shard =>
    tryBuildGtfV2Frame (ctx.dataHeader A shardsec (UInt8.ofNat i) false 0) shard tag).filterMap
      Except.toOption

/-- Every shard of the payload fits a privacy frame, and all three frames go out. -/
def FitsFrames (rs : ReedSolomon) (A : Aead C) (shardsec : Bool) (ctx : SealCtx C)
    (pay : Bytes) : Prop :=
  (∀ shard ∈ (encSplit rs A shardsec ctx pay).1, shard.length ≤ v2MaxPayloadLen) ∧
    (send3Mixed A shardsec ctx (encSplit rs A shardsec ctx pay).1
      (encSplit rs A shardsec ctx pay).2).length = 3

/-- The longest message, stream id included, that fits with so many relay headers around it. -/
def longestFitting (shardsec : Bool) (headers : ℕ) : ℕ :=
  (if shardsec then 878 else 894) - if headers = 0 then 0 else 38 + 40 * headers

theorem length_send3Mixed {shardsec : Bool} {ctx : SealCtx C} {f : List Bytes} (hf : f.length = 3)
    (hfits : ∀ shard ∈ f, shard.length ≤ v2MaxPayloadLen) (tag : Octets 16) :
    (send3Mixed A shardsec ctx f tag).length = 3 := by
  rw [send3Mixed, List.take_of_length_le (le_of_eq hf), List.length_filterMap_eq_countP,
    List.countP_eq_length.mpr, List.length_mapIdx, hf]
  intro frame hframe
  obtain ⟨i, hi, rfl⟩ := List.mem_mapIdx.mp hframe
  exact tryBuildGtfV2Frame_isSome (hfits _ (List.getElem_mem hi)) tag

theorem fitsFrames_iff {rs : ReedSolomon} (hrs : rs.Lawful) (hA : A.Lawful) (shardsec : Bool)
    (ctx : SealCtx C) (pay : Bytes) :
    FitsFrames rs A shardsec ctx pay ↔ pay.length ≤ longestFitting shardsec 0 := by
  have hlen : ∀ shard ∈ (encSplit rs A shardsec ctx pay).1, (shard.length ≤ v2MaxPayloadLen ↔
      pay.length ≤ longestFitting shardsec 0) := by
    intro shard hshard
    rw [length_of_mem_encSplit hrs hA shardsec ctx pay hshard, v2MaxPayloadLen, longestFitting]
    cases shardsec <;> simp <;> omega
  have hthree := length_encSplit rs A shardsec ctx pay
  constructor
  · rintro ⟨hfits, -⟩
    have hpos : 0 < (encSplit rs A shardsec ctx pay).1.length := by omega
    obtain ⟨shard, hshard⟩ := List.exists_mem_of_length_pos hpos
    exact (hlen shard hshard).mp (hfits shard hshard)
  · intro hpay
    have hfits := fun shard hshard => (hlen shard hshard).mpr hpay
    exact ⟨hfits, length_send3Mixed hthree hfits _⟩

theorem wrapped_le_iff (shardsec : Bool) {headers : ℕ} (hpos : 0 < headers) (hmax : headers ≤ 5)
    (n : ℕ) :
    40 * headers + (36 + 2 * ((n + 3) / 2)) ≤ longestFitting shardsec 0 ↔
      n ≤ longestFitting shardsec headers := by
  rw [longestFitting, longestFitting, if_pos rfl, if_neg hpos.ne']
  cases shardsec <;> simp only [Bool.false_eq_true, if_true, if_false] <;> omega

theorem buildOnionRoute_cases (route : List String) :
    (∀ payload, buildOnionRoute route payload = none) ∨
      (0 < route.length - 1 ∧ route.length - 1 ≤ 5 ∧
        ∀ payload, buildOnionRoute route payload = some (wrapHops payload route.tail)) := by
  unfold buildOnionRoute
  split
  · exact Or.inl fun _ => rfl
  · rename_i hroute
    have hshort : ¬ route.length < 2 := fun h => hroute (.inl h)
    have hlong : ¬ maxHops + 1 < route.length := fun h => hroute (.inr (.inl h))
    rw [maxHops] at hlong
    exact Or.inr ⟨by omega, by omega, fun _ => rfl⟩

theorem length_clientPayload_le_iff (hA : A.Lawful) (e : E2eSeal C) (shardsec : Bool)
    (onionRoute : Option (List String)) (batch : Bytes) :
    (clientPayload A e onionRoute batch).length ≤ longestFitting shardsec 0 ↔
      batch.length ≤ longestFitting shardsec (relayHeaders onionRoute) := by
  cases onionRoute with
  | none => rfl
  | some route =>
      rw [clientPayload, wrapOnionE2e, relayHeaders]
      rcases buildOnionRoute_cases route with hnone | ⟨hpos, hmax, hsome⟩
      · rw [hnone, hnone]
        rfl
      · rw [hsome, hsome, Option.getD_some, Option.isSome_some, if_pos rfl, length_wrapHops,
          length_sealE2e hA, List.length_tail, wrapped_le_iff shardsec hpos hmax]

theorem length_exitPayload_le_iff (hA : A.Lawful) (e : E2eSeal C) (shardsec : Bool)
    (peerFp : String) (viaRelay : Bool) (streamId : UInt32) (chunk : Bytes) :
    (exitPayload A e peerFp viaRelay streamId chunk).length ≤ longestFitting shardsec 0 ↔
      (frameChunk streamId chunk).length ≤ longestFitting shardsec viaRelay.toNat := by
  cases viaRelay with
  | false => rfl
  | true =>
      rw [exitPayload, if_pos rfl, length_buildRelayPacket, length_sealE2e hA]
      exact wrapped_le_iff shardsec one_pos (by omega) _

/-- The client's batches and the exit's chunks fit their frames exactly up to the lengths of
`longestFitting`. -/
theorem socks_messages_fit_iff (rs : ReedSolomon) (hrs : rs.Lawful) (A : Aead C) (hA : A.Lawful)
    (shardsec : Bool) (ctx : SealCtx C) (e : E2eSeal C) (streamId : UInt32) :
    (∀ (onionRoute : Option (List String)) (input : Bytes) (events : List PumpEvent),
      ∀ batch ∈ clientPump streamId [] input events,
        (FitsFrames rs A shardsec ctx (clientPayload A e onionRoute batch) ↔
          batch.length ≤ longestFitting shardsec (relayHeaders onionRoute))) ∧
      ∀ (peerFp : String) (viaRelay : Bool) (chunk : Bytes), chunk.length ≤ exitReadBytes →
        (FitsFrames rs A shardsec ctx (exitPayload A e peerFp viaRelay streamId chunk) ↔
          (frameChunk streamId chunk).length ≤ longestFitting shardsec viaRelay.toNat) := by
  constructor
  · intro onionRoute input events batch _
    rw [fitsFrames_iff hrs hA, length_clientPayload_le_iff hA]
  · intro peerFp viaRelay chunk _
    rw [fitsFrames_iff hrs hA, length_exitPayload_le_iff hA]

/-- A cipher whose tag is always zero. -/
def plainAead : Aead .symbolic :=
  .tagging (fun _ _ _ _ _ => List.Vector.replicate 16 0) fun key _ _ _ => key

def plainCtx : SealCtx .symbolic where
  key := Term.master 0
  epoch := 0
  counter := 2
  nonce := List.Vector.replicate 12 0
  direction := .responderToInitiator
  sessionHash := List.Vector.replicate 4 0
  ratchetDue := false
  epoch_lt := Nat.two_pow_pos 64
  counter_lt := by decide

def plainE2e : E2eSeal .symbolic where
  key := Term.master 1
  role := .initiator
  dctr := 2
  wireNonce := List.Vector.replicate 12 0

theorem socks_messages_fit_at_limit :
    FitsFrames galois8 plainAead true plainCtx
      (exitPayload plainAead plainE2e "peer" true 7 (List.replicate 796 0)) := by
  refine ((socks_messages_fit_iff galois8 galois8_lawful plainAead (Aead.tagging_lawful _ _) true
    plainCtx plainE2e 7).2 "peer" true (List.replicate 796 0) ?_).mpr ?_
  · rw [List.length_replicate]
    decide
  · rw [frameChunk, if_pos (by decide), List.length_append, length_toBeBytes,
      List.length_replicate]
    decide

/-- The exit fills its buffer; a client with an onion of three hops fills a batch. -/
theorem full_buffers_oversize :
    (List.replicate 900 (0 : UInt8)).length ≤ exitReadBytes ∧
      ¬ FitsFrames galois8 plainAead true plainCtx
        (exitPayload plainAead plainE2e "peer" false 7 (List.replicate 900 0)) ∧
      toBeBytes 4 7 ++ List.replicate 850 0 ∈
        clientPump 7 [] (List.replicate 850 0) [.read 850] ∧
      ¬ FitsFrames galois8 plainAead true plainCtx
        (clientPayload plainAead plainE2e (some ["guard", "middle", "exit"])
          (toBeBytes 4 7 ++ List.replicate 850 0)) := by
  have hA : plainAead.Lawful := Aead.tagging_lawful _ _
  refine ⟨by decide +kernel, ?_, by decide +kernel, ?_⟩
  · rw [fitsFrames_iff galois8_lawful hA, length_exitPayload_le_iff hA]
    decide +kernel
  · rw [fitsFrames_iff galois8_lawful hA, length_clientPayload_le_iff hA]
    decide +kernel

end Vantablack.Socks
