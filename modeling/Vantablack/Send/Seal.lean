import Vantablack.Receive.Ingest

/-!
Sealing a message and framing its shards: `SealCtx` and `enc_split` of `main.rs`, and
`try_build_gtf_v2_frame` of `ghost/net/mod.rs`. The XChaCha20-Poly1305 cipher, HMAC and HKDF come
from third-party crates and are the fields of one structure.
-/

namespace Vantablack.Send

open Lib Layers Session Receive

variable {C : Crypto}

structure Aead (C : Crypto) where
  xchachaSeal : C.Key → Octets 12 → ℕ → NonceDirection → Bytes → Bytes → Bytes
  xchachaOpen : C.Key → Octets 12 → ℕ → NonceDirection → Bytes → Bytes → Option Bytes
  shardKey : C.Key → ℕ → Octets 12 → UInt8 → C.Key
  hmacSha256 : C.Key → Bytes → Octets 32

/-- What the receive path uses of it: no associated data. -/
def Aead.shardAead (A : Aead C) : ShardAead C where
  shardKey := A.shardKey
  xchachaOpen key nonce epoch direction data := A.xchachaOpen key nonce epoch direction [] data

/-- Sealing adds a tag of 16 bytes, and what was sealed opens again. -/
structure Aead.Lawful (A : Aead C) : Prop where
  length_seal : ∀ key nonce epoch direction aad data,
    (A.xchachaSeal key nonce epoch direction aad data).length = data.length + 16
  open_seal : ∀ key nonce epoch direction aad data,
    A.xchachaOpen key nonce epoch direction aad
      (A.xchachaSeal key nonce epoch direction aad data) = some data

/-- A cipher that hides nothing: it appends a tag of everything but the data. -/
def Aead.tagging (tag : C.Key → Octets 12 → ℕ → NonceDirection → Bytes → Octets 16)
    (shardKey : C.Key → ℕ → Octets 12 → UInt8 → C.Key) : Aead C where
  xchachaSeal key nonce epoch direction aad data :=
    data ++ (tag key nonce epoch direction aad).toList
  xchachaOpen key nonce epoch direction aad data :=
    if data.drop (data.length - 16) = (tag key nonce epoch direction aad).toList then
      some (data.take (data.length - 16))
    else none
  shardKey := shardKey
  hmacSha256 _ _ := List.Vector.replicate 32 0

theorem Aead.tagging_lawful
    (tag : C.Key → Octets 12 → ℕ → NonceDirection → Bytes → Octets 16)
    (shardKey : C.Key → ℕ → Octets 12 → UInt8 → C.Key) : (Aead.tagging tag shardKey).Lawful where
  length_seal key nonce epoch direction aad data := by
    simp [Aead.tagging]
  open_seal key nonce epoch direction aad data := by
    simp [Aead.tagging]

/-! ### The header of a message -/

structure SealCtx (C : Crypto) where
  key : C.Key
  epoch : ℕ
  counter : ℕ
  nonce : Octets 12
  direction : NonceDirection
  sessionHash : Octets 4
  ratchetDue : Bool
  epoch_lt : epoch < 2 ^ 64
  counter_lt : counter < 2 ^ 64

/-- The random nonce is passed in. There is no context once the `u64` of the epoch or of the counter
is used up. -/
def SealCtx.fromSession (s : Session C) (nonce : Octets 12) : Option (SealCtx C × Session C) :=
  match Block.ofList? 4 s.sessionHash with
  | none => none
  | some sessionHash =>
      let m := s.sealMaterial.1
      if h : m.epoch < 2 ^ 64 ∧ m.counter < 2 ^ 64 then
        some
          ({ key := m.key, epoch := m.epoch, counter := m.counter, nonce := nonce
             direction := m.direction, sessionHash := sessionHash, ratchetDue := m.ratchetDue
             epoch_lt := h.1, counter_lt := h.2 },
           s.sealMaterial.2)
      else none

theorem SealCtx.fromSession_eq_some {s s' : Session C} {nonce : Octets 12} {ctx : SealCtx C}
    (h : SealCtx.fromSession s nonce = some (ctx, s')) :
    ctx.epoch = s.epoch ∧ ctx.counter = s.sealMaterial.1.counter ∧
      s.sessionHash = ctx.sessionHash.toList ∧ s' = s.sealMaterial.2 := by
  unfold SealCtx.fromSession at h
  split at h
  · cases h
  · rename_i sessionHash hhash
    dsimp only at h
    split at h
    · cases h
      exact ⟨rfl, rfl, (Block.toList_of_ofList? hhash).symm, rfl⟩
    · cases h

def directionByte : NonceDirection → UInt8
  | .initiatorToResponder => 0
  | .responderToInitiator => 1

def tailBlock (A : Aead C) (key : C.Key) (nonce : Octets 12) (epoch : ℕ)
    (direction : NonceDirection) (block : UInt8) : Octets 32 :=
  A.hmacSha256 key (utf8 "GTF_P3_1_JITTER_TAIL" ++ nonce.toList ++ toBeBytes 8 epoch ++
    [directionByte direction, block])

/-- The jitter tail: two blocks of HMAC output. -/
def tailFor (A : Aead C) (key : C.Key) (nonce : Octets 12) (epoch : ℕ)
    (direction : NonceDirection) : Octets 64 :=
  ⟨(tailBlock A key nonce epoch direction 0).toList ++
    (tailBlock A key nonce epoch direction 1).toList, by simp⟩

namespace SealCtx

def tail (A : Aead C) (ctx : SealCtx C) : Octets 64 :=
  tailFor A ctx.key ctx.nonce ctx.epoch ctx.direction

def header (A : Aead C) (ctx : SealCtx C) (shardIndex : UInt8) (bulk : Bool) (flags : UInt8) :
    GtfV2Header where
  sessionHash := ctx.sessionHash
  counter := ctx.counter
  epoch := ctx.epoch
  nonce := ctx.nonce
  shardIndex := shardIndex
  flags := flags
  bulk := bulk
  tail := ctx.tail A

def dataHeader (A : Aead C) (shardsec : Bool) (ctx : SealCtx C) (shardIndex : UInt8)
    (bulk : Bool) (flags : UInt8) : GtfV2Header :=
  ctx.header A shardIndex bulk (if shardsec then flags ||| flagShardsec else flags)

end SealCtx

/-! ### Sealing -/

def frameShard (d : Bytes) : Bytes :=
  toBeBytes 2 d.length ++ d

/-- The length, the payload, and a zero byte if that makes an odd number of bytes. -/
def framedPayload (pay : Bytes) : Bytes :=
  padded (toBeBytes 2 pay.length ++ pay)

/-- Strip the length and the padding of a decrypted frame. -/
def framePayload (pt : Bytes) : Option Bytes :=
  if pt.length < 2 then none
  else
    let n := fromBeBytes (pt.take 2)
    if 2 + n = pt.length ∨ 2 + n + 1 = pt.length then some ((pt.drop 2).take n) else none

/-- The last sixteen bytes, zeros if there are fewer. -/
def tagOf (data : Bytes) : Octets 16 :=
  (Block.ofList? 16 (data.drop (data.length - 16))).getD (List.Vector.replicate 16 0)

def sealShard (A : Aead C) (master : C.Key) (epoch : ℕ) (nonce : Octets 12)
    (direction : NonceDirection) (index : UInt8) (shard : Bytes) : SealedShard :=
  let data := A.xchachaSeal (A.shardKey master epoch nonce index) (shardNonce nonce index) epoch
    direction [] shard
  { index := index
    ciphertext := data.take (data.length - 16)
    tag := tagOf data
    isHoney := false }

/-- What goes on the wire for one ShardSec shard. -/
def wireShard (A : Aead C) (ctx : SealCtx C) (index : ℕ) (shard : Bytes) : Bytes :=
  let sealedShard := sealShard A ctx.key ctx.epoch ctx.nonce ctx.direction (UInt8.ofNat index) shard
  sealedShard.ciphertext ++ sealedShard.tag.toList

/-- The one ciphertext of a message without ShardSec; the jitter tail is its associated data. -/
def sealMessage (A : Aead C) (ctx : SealCtx C) (pay : Bytes) : Bytes :=
  A.xchachaSeal ctx.key ctx.nonce ctx.epoch ctx.direction (ctx.tail A).toList (framedPayload pay)

/-- The three framed shards of a message and the tag for their frames. -/
def encSplit (rs : ReedSolomon) (A : Aead C) (shardsec : Bool) (ctx : SealCtx C) (pay : Bytes) :
    List Bytes × Octets 16 :=
  if shardsec then
    ((encode rs (framedPayload pay)).mapIdx fun index shard =>
      frameShard (wireShard A ctx index shard), List.Vector.replicate 16 0)
  else
    ((encode rs (sealMessage A ctx pay)).map frameShard, tagOf (sealMessage A ctx pay))

/-! ### Frames -/

def v2MaxPayloadLen : ℕ := 458

def v2MaxBulkPayloadLen : ℕ := 1418

/-- What fits in the payload region of a frame. -/
def capacity (bulk : Bool) : ℕ :=
  if bulk then v2MaxBulkPayloadLen else v2MaxPayloadLen

def u64FromLeBytes (l : Bytes) : UInt64 :=
  UInt64.ofNat (fromBeBytes l.reverse)

def golden : UInt64 := 0x9E3779B97F4A7C15

def rotateLeft17 (x : UInt64) : UInt64 :=
  (x <<< 17) ||| (x >>> 47)

/-- The seed of the bytes that fill the rest of a privacy frame. -/
def slackSeed (h : GtfV2Header) : UInt64 :=
  UInt64.ofNat h.counter ^^^ rotateLeft17 (UInt64.ofNat h.epoch) ^^^
    u64FromLeBytes (h.nonce.toList.take 8) ^^^
    u64FromLeBytes (h.sessionHash.toList ++ h.nonce.toList.drop 8) ^^^
    u64FromLeBytes (h.tail.toList.take 8) ^^^ (h.shardIndex.toUInt64 <<< 40) ^^^ golden

/-- One round of the generator, as eight bytes. -/
def slackWord (seed : UInt64) : Bytes :=
  let z := (seed ^^^ (seed >>> 30)) * 0xBF58476D1CE4E5B9
  let z := (z ^^^ (z >>> 27)) * 0x94D049BB133111EB
  (toBeBytes 8 (z ^^^ (z >>> 31)).toNat).reverse

/-- What stands between the payload and the tag. -/
def slack (h : GtfV2Header) (n : ℕ) : Bytes :=
  if h.bulk then List.replicate n 0
  else
    ((List.range ((n + 7) / 8)).flatMap fun i =>
      slackWord (slackSeed h + UInt64.ofNat (i + 1) * golden)).take n

def wireFlags (h : GtfV2Header) : UInt8 :=
  flagV2 ||| (h.flags &&& (flagBulk ||| flagTunnel ||| 0x04 ||| flagShardsec)) |||
    (if h.bulk then flagBulk else 0)

def tryBuildGtfV2Frame (h : GtfV2Header) (payload : Bytes) (authTag : Octets 16) :
    Except String Bytes :=
  if capacity h.bulk < payload.length then .error "payload exceeds GTF v2 capacity"
  else
    .ok (h.sessionHash.toList ++ (List.replicate 4 0 ++ (h.shardIndex :: wireFlags h ::
      (toBeBytes 8 h.counter ++ (toBeBytes 8 h.epoch ++ (h.nonce.toList ++
        (payload ++ (slack h (capacity h.bulk - payload.length) ++ (authTag.toList ++
          if h.bulk then [] else h.tail.toList)))))))))

theorem tryBuildGtfV2Frame_isSome {h : GtfV2Header} {payload : Bytes}
    (hlen : payload.length ≤ capacity h.bulk) (authTag : Octets 16) :
    (tryBuildGtfV2Frame h payload authTag).toOption.isSome = true := by
  rw [tryBuildGtfV2Frame, if_neg (not_lt.mpr hlen)]
  rfl

/-- `seal_single`: one datagram with the bit of a self-contained frame. -/
def sealSingle (A : Aead C) (ctx : SealCtx C) (payload : Bytes) : Except String Bytes :=
  let framed := A.xchachaSeal ctx.key ctx.nonce ctx.epoch ctx.direction [] (framedPayload payload)
  tryBuildGtfV2Frame (ctx.header A 0 true flagTunnel) (frameShard framed) (tagOf framed)

/-! ### Lengths -/

theorem length_padded_eq (data : Bytes) : (padded data).length = 2 * ((data.length + 1) / 2) := by
  unfold padded
  split
  · rw [List.length_append, List.length_singleton]
    omega
  · omega

theorem length_framedPayload (pay : Bytes) :
    (framedPayload pay).length = 2 * ((pay.length + 3) / 2) := by
  rw [framedPayload, length_padded_eq, List.length_append, length_toBeBytes]
  omega

theorem framedPayload_ne_nil (pay : Bytes) : framedPayload pay ≠ [] := by
  rw [← List.length_pos_iff, length_framedPayload]
  omega

theorem length_of_mem_encode {rs : ReedSolomon} (hrs : rs.Lawful) {data shard : Bytes}
    (hne : data ≠ []) (h : shard ∈ encode rs data) :
    shard.length = (data.length + 1) / 2 := by
  obtain ⟨low, high, hencode, hjoin, hlen, -, -⟩ := encode_eq rs hne
  have hsum := congrArg List.length hjoin
  rw [List.length_append, length_padded_eq] at hsum
  have hparity := hrs.length_parity low high hlen
  rw [hencode] at h
  simp only [List.mem_cons, List.not_mem_nil, or_false] at h
  rcases h with rfl | rfl | rfl <;> omega

theorem length_frameShard (d : Bytes) : (frameShard d).length = 2 + d.length := by
  rw [frameShard, List.length_append, length_toBeBytes]

theorem length_of_tryBuildGtfV2Frame {h : GtfV2Header} {payload frame : Bytes} {authTag : Octets 16}
    (hbulk : h.bulk = true) (hframe : tryBuildGtfV2Frame h payload authTag = .ok frame) :
    frame.length = 1472 := by
  unfold tryBuildGtfV2Frame at hframe
  split at hframe
  · cases hframe
  · rename_i hfits
    cases hframe
    simp only [hbulk, capacity, v2MaxBulkPayloadLen, if_true] at hfits ⊢
    simp [slack, hbulk]
    omega

theorem sealSingle_eq_ok {A : Aead C} (hA : A.Lawful) (ctx : SealCtx C) {payload : Bytes}
    (hlen : payload.length ≤ 1398) :
    ∃ frame, sealSingle A ctx payload = .ok frame ∧ frame.length = 1472 := by
  have hframed : (frameShard (A.xchachaSeal ctx.key ctx.nonce ctx.epoch ctx.direction []
      (framedPayload payload))).length ≤ capacity (ctx.header A 0 true flagTunnel).bulk := by
    rw [length_frameShard, hA.length_seal, length_framedPayload]
    show _ ≤ 1418
    omega
  have hsome := tryBuildGtfV2Frame_isSome hframed (tagOf (A.xchachaSeal ctx.key ctx.nonce ctx.epoch
    ctx.direction [] (framedPayload payload)))
  unfold sealSingle
  dsimp only
  cases hbuild : tryBuildGtfV2Frame (ctx.header A 0 true flagTunnel) _ _ with
  | error e =>
      rw [hbuild] at hsome
      cases hsome
  | ok frame => exact ⟨frame, rfl, length_of_tryBuildGtfV2Frame rfl hbuild⟩

theorem length_encode (rs : ReedSolomon) (data : Bytes) : (encode rs data).length = 3 := by
  unfold encode
  split
  · rfl
  · rfl

theorem length_encSplit (rs : ReedSolomon) (A : Aead C) (shardsec : Bool) (ctx : SealCtx C)
    (pay : Bytes) : (encSplit rs A shardsec ctx pay).1.length = 3 := by
  unfold encSplit
  split
  · rw [List.length_mapIdx, length_encode]
  · rw [List.length_map, length_encode]

theorem take_append_tagOf {data : Bytes} (h : 16 ≤ data.length) :
    data.take (data.length - 16) ++ (tagOf data).toList = data := by
  have hlen : (data.drop (data.length - 16)).length = 16 := by
    rw [List.length_drop]
    omega
  have htag : (tagOf data).toList = data.drop (data.length - 16) := by
    rw [tagOf, Block.ofList?, dif_pos hlen]
    rfl
  rw [htag, List.take_append_drop]

theorem wireShard_eq {A : Aead C} (hA : A.Lawful) (ctx : SealCtx C) (index : ℕ) (shard : Bytes) :
    wireShard A ctx index shard =
      A.xchachaSeal (A.shardKey ctx.key ctx.epoch ctx.nonce (UInt8.ofNat index))
        (shardNonce ctx.nonce (UInt8.ofNat index)) ctx.epoch ctx.direction [] shard := by
  apply take_append_tagOf
  rw [hA.length_seal]
  omega

theorem length_of_mem_encSplit {rs : ReedSolomon} (hrs : rs.Lawful) {A : Aead C} (hA : A.Lawful)
    (shardsec : Bool) (ctx : SealCtx C) (pay : Bytes) {shard : Bytes}
    (h : shard ∈ (encSplit rs A shardsec ctx pay).1) :
    shard.length = (pay.length + 3) / 2 + if shardsec then 18 else 10 := by
  have hframed := length_framedPayload pay
  unfold encSplit at h
  split at h
  · rename_i hmode
    obtain ⟨index, hindex, rfl⟩ := List.mem_mapIdx.mp h
    have hplain := length_of_mem_encode hrs (framedPayload_ne_nil pay) (List.getElem_mem hindex)
    rw [length_frameShard, wireShard_eq hA, hA.length_seal, hplain, if_pos hmode]
    omega
  · rename_i hmode
    obtain ⟨cipher, hcipher, rfl⟩ := List.mem_map.mp h
    have hsealed := hA.length_seal ctx.key ctx.nonce ctx.epoch ctx.direction (ctx.tail A).toList
      (framedPayload pay)
    have hne : sealMessage A ctx pay ≠ [] := by
      rw [← List.length_pos_iff, sealMessage]
      omega
    rw [length_frameShard, length_of_mem_encode hrs hne hcipher, sealMessage, hsealed, if_neg hmode]
    omega

end Vantablack.Send
