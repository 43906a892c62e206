import Vantablack.Net.Relay

/-!
The onion of one shard, `SphinxShardOnion` of `net/relay.rs`: three layers, each with the name of the
next hop in front, in a frame of 576 bytes. ChaCha20-Poly1305 comes from a third-party crate and is a
parameter; the filler of the frame is random and passed in.
-/

namespace Vantablack.Net

open Lib Layers List

variable {K : Type}

def sphinxShardLen : ℕ := 576

def sphinxMaxHopName : ℕ := 32

/-- What fits in a frame beside the length of two bytes. -/
def sphinxCapacity : ℕ := sphinxShardLen - 2

structure ShardCipher (K : Type) where
  encrypt : K → Octets 12 → Bytes → Bytes
  decrypt : K → Octets 12 → Bytes → Option Bytes

/-- Sealing adds a tag of 16 bytes, and what was sealed opens again under its nonce only. -/
structure ShardCipher.Lawful (A : ShardCipher K) : Prop where
  length_encrypt : ∀ key nonce data, (A.encrypt key nonce data).length = data.length + 16
  decrypt_encrypt : ∀ key nonce data, A.decrypt key nonce (A.encrypt key nonce data) = some data
  decrypt_other : ∀ key nonce nonce' data, nonce' ≠ nonce →
    A.decrypt key nonce' (A.encrypt key nonce data) = none

def guardNonce : Octets 12 := List.Vector.replicate 12 0x11
def middleNonce : Octets 12 := List.Vector.replicate 12 0x22
def exitNonce : Octets 12 := List.Vector.replicate 12 0x33

structure PeeledSphinxHop where
  nextHop : String
  innerPayload : Bytes
  deriving DecidableEq

namespace SphinxShardOnion

/-- The name of a hop in its field of 32 bytes, with what does not fit cut off. -/
def hopField (hop : String) : Octets 32 :=
  Block.zeroPadded 32 ((utf8 hop).take sphinxMaxHopName)

def sealHop (A : ShardCipher K) (key : K) (nonce : Octets 12) (nextHop : String) (inner : Bytes) :
    Bytes :=
  A.encrypt key nonce ((hopField nextHop).toList ++ inner)

/-- The layer of the exit. The length of the shard is written as one byte. -/
def sealExit (A : ShardCipher K) (exitKey : K) (shardIdx : UInt8) (shardData : Bytes) : Bytes :=
  A.encrypt exitKey exitNonce (shardIdx :: UInt8.ofNat shardData.length :: shardData)

/-- `none` is the panic on a shard that is too large. -/
def build (A : ShardCipher K) (guardKey : K) (middleHop : String) (middleKey : K) (exitHop : String)
    (exitKey : K) (shardIdx : UInt8) (shardData : Bytes) (filler : Octets 574) : Option Bytes :=
  let exitSealed := sealExit A exitKey shardIdx shardData
  let middleSealed := sealHop A middleKey middleNonce exitHop exitSealed
  let guardSealed := sealHop A guardKey guardNonce middleHop middleSealed
  if sphinxCapacity < guardSealed.length then none
  else
    some (toBeBytes 2 guardSealed.length ++ (guardSealed ++
      filler.toList.take (sphinxCapacity - guardSealed.length)))

/-- What of a packet is decrypted: a whole frame has a length in front. -/
def framedPart (ciphertext : Bytes) : Option Bytes :=
  if ciphertext.length = sphinxShardLen then
    let actualLen := fromBeBytes (ciphertext.take 2)
    if sphinxCapacity < actualLen then none else some ((ciphertext.drop 2).take actualLen)
  else some ciphertext

/-- The nonce of the guard is tried first. -/
def peelHop (A : ShardCipher K) (hopKey : K) (ciphertext : Bytes) : Option PeeledSphinxHop := do
  let part ← framedPart ciphertext
  let pt ← (A.decrypt hopKey guardNonce part).or (A.decrypt hopKey middleNonce part)
  if pt.length < sphinxMaxHopName then none
  else do
    let nextHop ← fromUtf8 ((pt.take sphinxMaxHopName).takeWhile (· ≠ 0))
    some { nextHop := nextHop, innerPayload := pt.drop sphinxMaxHopName }

def exitOpen (A : ShardCipher K) (exitKey : K) (ciphertext : Bytes) : Option (UInt8 × Bytes) := do
  let pt ← A.decrypt exitKey exitNonce ciphertext
  match pt with
  | shardIdx :: shardLen :: rest =>
      if rest.length < shardLen.toNat then none else some (shardIdx, rest.take shardLen.toNat)
  | _ => none

/-! ### One layer -/

variable {A : ShardCipher K}

theorem peelHop_of_decrypt {key : K} {ciphertext part : Bytes} {nextHop : String} {inner : Bytes}
    (hpart : framedPart ciphertext = some part)
    (hopen : (A.decrypt key guardNonce part).or (A.decrypt key middleNonce part) =
      some ((hopField nextHop).toList ++ inner)) (hfits : FitsHeader nextHop) :
    peelHop A key ciphertext = some { nextHop := nextHop, innerPayload := inner } := by
  have hfield : (hopField nextHop).toList.length = sphinxMaxHopName := List.Vector.toList_length _
  have hlong : ¬ ((hopField nextHop).toList ++ inner).length < sphinxMaxHopName := by
    rw [length_append, hfield]
    omega
  have hname : (((hopField nextHop).toList ++ inner).take sphinxMaxHopName).takeWhile (· ≠ 0) =
      utf8 nextHop := by
    have htake : (utf8 nextHop).take sphinxMaxHopName = utf8 nextHop :=
      take_of_length_le hfits.1
    rw [take_left' hfield, hopField, htake]
    exact takeWhile_zeroPadded hfits.1 hfits.2
  have hrest : ((hopField nextHop).toList ++ inner).drop sphinxMaxHopName = inner :=
    drop_left' hfield
  simp only [peelHop, hpart, hopen, Option.bind_eq_bind, Option.bind_some, if_neg hlong, hname,
    fromUtf8_utf8, hrest]

section

variable (hA : A.Lawful)

include hA

theorem length_sealExit (exitKey : K) (shardIdx : UInt8) (shardData : Bytes) :
    (sealExit A exitKey shardIdx shardData).length = shardData.length + 18 := by
  rw [sealExit, hA.length_encrypt]
  rfl

theorem length_sealHop (key : K) (nonce : Octets 12) (nextHop : String) (inner : Bytes) :
    (sealHop A key nonce nextHop inner).length = inner.length + 48 := by
  rw [sealHop, hA.length_encrypt, length_append, List.Vector.toList_length]
  omega

theorem peelHop_frame {guardKey : K} {nextHop : String} {inner frame : Bytes} (filler : Bytes)
    (hfits : FitsHeader nextHop)
    (hroom : (sealHop A guardKey guardNonce nextHop inner).length ≤ sphinxCapacity)
    (hframe : frame = toBeBytes 2 (sealHop A guardKey guardNonce nextHop inner).length ++
      (sealHop A guardKey guardNonce nextHop inner ++ filler))
    (hlen : frame.length = sphinxShardLen) :
    peelHop A guardKey frame = some { nextHop := nextHop, innerPayload := inner } := by
  generalize hsealed : sealHop A guardKey guardNonce nextHop inner = guardSealed at hroom hframe
  have hcount : fromBeBytes (frame.take 2) = guardSealed.length := by
    have hsmall : guardSealed.length < 256 ^ 2 := by
      have : sphinxCapacity = 574 := rfl
      omega
    rw [hframe, take_left' (length_toBeBytes 2 _), fromBeBytes_toBeBytes hsmall]
  have hpart : framedPart frame = some guardSealed := by
    unfold framedPart
    rw [if_pos hlen]
    dsimp only
    rw [hcount, if_neg (not_lt.mpr hroom), hframe, drop_left' (length_toBeBytes 2 _),
      take_left' rfl]
  refine peelHop_of_decrypt hpart ?_ hfits
  rw [← hsealed, sealHop, hA.decrypt_encrypt, Option.some_or]

theorem peelHop_inner {middleKey : K} {nextHop : String} {inner : Bytes}
    (hfits : FitsHeader nextHop)
    (hlen : (sealHop A middleKey middleNonce nextHop inner).length ≠ sphinxShardLen) :
    peelHop A middleKey (sealHop A middleKey middleNonce nextHop inner) =
      some { nextHop := nextHop, innerPayload := inner } := by
  have hpart : framedPart (sealHop A middleKey middleNonce nextHop inner) =
      some (sealHop A middleKey middleNonce nextHop inner) := by
    rw [framedPart, if_neg hlen]
  refine peelHop_of_decrypt hpart ?_ hfits
  have hother : guardNonce ≠ middleNonce := by decide
  rw [sealHop, hA.decrypt_other _ _ _ _ hother, hA.decrypt_encrypt, Option.none_or]

theorem exitOpen_sealExit (exitKey : K) (shardIdx : UInt8) (shardData : Bytes) :
    exitOpen A exitKey (sealExit A exitKey shardIdx shardData) =
      some (shardIdx, shardData.take (shardData.length % 256)) := by
  have hcount : (UInt8.ofNat shardData.length).toNat = shardData.length % 256 :=
    UInt8.toNat_ofNat'
  have henough : ¬ shardData.length < shardData.length % 256 :=
    not_lt.mpr (Nat.mod_le _ _)
  simp only [exitOpen, sealExit, hA.decrypt_encrypt, Option.bind_eq_bind, Option.bind_some, hcount,
    if_neg henough]

theorem peel_of_build {guardKey middleKey exitKey : K} {middleHop exitHop : String}
    {shardIdx : UInt8} {shardData : Bytes} {filler : Octets 574} {onion : Bytes}
    (hmiddle : FitsHeader middleHop) (hexit : FitsHeader exitHop)
    (hbuild : build A guardKey middleHop middleKey exitHop exitKey shardIdx shardData filler =
      some onion) :
    onion.length = sphinxShardLen ∧
      ∃ inner inner',
        peelHop A guardKey onion = some { nextHop := middleHop, innerPayload := inner } ∧
        peelHop A middleKey inner = some { nextHop := exitHop, innerPayload := inner' } ∧
        exitOpen A exitKey inner' = some (shardIdx, shardData.take (shardData.length % 256)) := by
  unfold build at hbuild
  dsimp only at hbuild
  split at hbuild
  · cases hbuild
  · rename_i hroom
    rw [not_lt] at hroom
    have hlengths : ∀ inner, (sealHop A guardKey guardNonce middleHop inner).length =
        inner.length + 48 := length_sealHop hA guardKey guardNonce middleHop
    have hmiddleLen := length_sealHop hA middleKey middleNonce exitHop
      (sealExit A exitKey shardIdx shardData)
    have hexitLen := length_sealExit hA exitKey shardIdx shardData
    have hcapacity : sphinxCapacity = 574 := rfl
    have hframe := (Option.some.inj hbuild).symm
    have hlen : onion.length = sphinxShardLen := by
      rw [hframe, length_append, length_append, length_toBeBytes, length_take,
        List.Vector.toList_length]
      show _ = 576
      omega
    have hshort : (sealHop A middleKey middleNonce exitHop
        (sealExit A exitKey shardIdx shardData)).length ≠ sphinxShardLen := by
      rw [hlengths] at hroom
      show _ ≠ 576
      omega
    exact ⟨hlen, _, _, peelHop_frame hA _ hmiddle hroom hframe hlen,
      peelHop_inner hA hexit hshort, exitOpen_sealExit hA exitKey shardIdx shardData⟩

end

/-- Of the shards that `build` takes, those of less than 256 bytes arrive whole, and no others. -/
theorem shard_delivered_iff (A : ShardCipher K) (hA : A.Lawful) (guardKey middleKey exitKey : K)
    (middleHop exitHop : String) (hmiddle : FitsHeader middleHop) (hexit : FitsHeader exitHop)
    (shardIdx : UInt8) (shardData : Bytes) (filler : Octets 574) (onion : Bytes)
    (hbuild : build A guardKey middleHop middleKey exitHop exitKey shardIdx shardData filler =
      some onion) :
    (onion.length = sphinxShardLen ∧
        ∃ inner inner',
          peelHop A guardKey onion = some { nextHop := middleHop, innerPayload := inner } ∧
          peelHop A middleKey inner = some { nextHop := exitHop, innerPayload := inner' } ∧
          exitOpen A exitKey inner' = some (shardIdx, shardData)) ↔
      shardData.length < 256 := by
  obtain ⟨hlen, inner, inner', hguard, hpeeled, hopened⟩ := peel_of_build hA hmiddle hexit hbuild
  constructor
  · rintro ⟨-, inner₁, inner₂, hguard', hpeeled', hopened'⟩
    rw [hguard] at hguard'
    cases hguard'
    rw [hpeeled] at hpeeled'
    cases hpeeled'
    rw [hopened, Option.some.injEq, Prod.mk.injEq] at hopened'
    have hwhole := congrArg length hopened'.2
    rw [length_take] at hwhole
    have hmod := Nat.mod_lt shardData.length (show 0 < 256 by decide)
    omega
  · intro hsmall
    refine ⟨hlen, inner, inner', hguard, hpeeled, ?_⟩
    rw [hopened, Nat.mod_eq_of_lt hsmall, take_length]

/-! ### Two shards -/

/-- A cipher that hides nothing: it appends the nonce. -/
def plainCipher : ShardCipher UInt8 where
  encrypt _ nonce data := data ++ (nonce.toList ++ replicate 4 0)
  decrypt _ nonce data :=
    if data.drop (data.length - 16) = nonce.toList ++ replicate 4 0 then
      some (data.take (data.length - 16))
    else none

theorem plainCipher_lawful : plainCipher.Lawful where
  length_encrypt key nonce data := by
    simp [plainCipher]
  decrypt_encrypt key nonce data := by
    simp [plainCipher]
  decrypt_other key nonce nonce' data hne := by
    have hlen : (data ++ (nonce.toList ++ replicate 4 (0 : UInt8))).length - 16 =
        data.length := by
      simp
    simp only [plainCipher, hlen, drop_left, Block.append_inj, and_true]
    exact if_neg hne.symm

def noFiller : Octets 574 := List.Vector.replicate 574 0

def zerosOnion (n : ℕ) : Option Bytes :=
  build plainCipher 1 "middle" 2 "exit" 3 1 (replicate n 0) noFiller

theorem three_zeros_delivered :
    ((zerosOnion 3).getD []).length = sphinxShardLen ∧
      ∃ inner inner',
        peelHop plainCipher 1 ((zerosOnion 3).getD []) =
          some { nextHop := "middle", innerPayload := inner } ∧
        peelHop plainCipher 2 inner = some { nextHop := "exit", innerPayload := inner' } ∧
        exitOpen plainCipher 3 inner' = some (1, replicate 3 0) :=
  (shard_delivered_iff plainCipher plainCipher_lawful 1 2 3 "middle" "exit"
    (by unfold FitsHeader; decide +kernel) (by unfold FitsHeader; decide +kernel) 1
    (replicate 3 0) noFiller _ (by decide +kernel)).mpr (by decide)

/-- A shard of 256 bytes is taken and arrives as one of none. -/
theorem shard_of_256_emptied :
    ∃ onion, zerosOnion 256 = some onion ∧ onion.length = sphinxShardLen ∧
      ∃ inner inner',
        peelHop plainCipher 1 onion = some { nextHop := "middle", innerPayload := inner } ∧
        peelHop plainCipher 2 inner = some { nextHop := "exit", innerPayload := inner' } ∧
        exitOpen plainCipher 3 inner' = some (1, []) := by
  have hfits : FitsHeader "middle" ∧ FitsHeader "exit" := by
    unfold FitsHeader
    decide +kernel
  have hbuilt : (zerosOnion 256).isSome = true := by decide +kernel
  obtain ⟨onion, honion⟩ := Option.isSome_iff_exists.mp hbuilt
  obtain ⟨hlen, inner, inner', hguard, hmiddle, hexit⟩ :=
    peel_of_build plainCipher_lawful hfits.1 hfits.2 honion
  rw [length_replicate, Nat.mod_self, take_zero] at hexit
  exact ⟨onion, honion, hlen, inner, inner', hguard, hmiddle, hexit⟩

end SphinxShardOnion

end Vantablack.Net
