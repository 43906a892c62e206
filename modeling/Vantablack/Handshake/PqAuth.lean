import Vantablack.Handshake.HandlePkt

/-!
The post-quantum identity proof that follows the negotiated handshake: the binding of
`layers/l0_identity.rs`, its chunks, and what `handle_pq_auth_pdu` of `main.rs` does with
them. A node proves its identity by signing the master key of the session together with its
ML-DSA key, with both of its signing keys.

A master key is an abstract value here, so the two signatures over it are parameters of their
own.
-/

namespace Vantablack

namespace Handshake

open Lib Layers Session

variable {C : Crypto}

structure BindingPrimitives (C : Crypto) where
  /-- `pq_commitment`: the hash of an ML-DSA key. -/
  pqCommitment : Bytes → Octets 32
  /-- The Ed25519 signature of a peer over a master key and an ML-DSA key. -/
  verifyEd : Octets 32 → C.Key → Bytes → Octets 64 → Bool
  /-- The ML-DSA signature under a key, over a master key and that key. -/
  verifyPq : Bytes → C.Key → Bytes → Bool

/-! ### The binding -/

structure IdentityBinding where
  edPk : Octets 32
  pqPk : Bytes
  edSig : Octets 64
  pqSig : Bytes

def mlDsa65PkLen : ℕ := 1952

def mlDsa65SigLen : ℕ := 3309

def bindingLenHybrid : ℕ := 1 + 32 + mlDsa65PkLen + 64 + mlDsa65SigLen

def parseBinding (binding : Bytes) : Option IdentityBinding := do
  if binding.length ≠ bindingLenHybrid || binding.head? ≠ some 0x02 then none
  some
    { edPk := ← blockAt binding 1 32
      pqPk := ← sliceAt binding 33 mlDsa65PkLen
      edSig := ← blockAt binding (33 + mlDsa65PkLen) 64
      pqSig := ← sliceAt binding (33 + mlDsa65PkLen + 64) mlDsa65SigLen }

/-- The ML-DSA key of the peer, if the binding proves it. -/
def verifyHybridBinding (Q : BindingPrimitives C) (peerEdPk : Bytes)
    (expectedPqCommitment : Option Bytes) (channelBinding : C.Key) (binding : Bytes) :
    Except String Bytes :=
  match parseBinding binding with
  | none => .error "invalid binding length or version"
  | some b =>
      if b.edPk.toList ≠ peerEdPk then .error "mismatched peer Ed25519 key"
      else if expectedPqCommitment.any (· ≠ (Q.pqCommitment b.pqPk).toList) then
        .error "mismatched PQ commitment"
      else if !Q.verifyEd b.edPk channelBinding b.pqPk b.edSig then
        .error "Ed25519 signature invalid"
      else if !Q.verifyPq b.pqPk channelBinding b.pqSig then
        .error "ML-DSA-65 signature invalid"
      else .ok b.pqPk

theorem verifyHybridBinding_eq_ok {Q : BindingPrimitives C} {peerEdPk binding pqPk : Bytes}
    {expectedPqCommitment : Option Bytes} {channelBinding : C.Key}
    (h : verifyHybridBinding Q peerEdPk expectedPqCommitment channelBinding binding = .ok pqPk) :
    ∃ b, parseBinding binding = some b ∧ b.edPk.toList = peerEdPk ∧ b.pqPk = pqPk ∧
      Q.verifyEd b.edPk channelBinding b.pqPk b.edSig = true := by
  unfold verifyHybridBinding at h
  split at h
  · cases h
  rename_i b hb
  split at h
  · cases h
  rename_i hpk
  split at h
  · cases h
  split at h
  · cases h
  rename_i hverify
  split at h
  · cases h
  cases h
  exact ⟨b, hb, not_not.mp hpk, rfl, by simpa using hverify⟩

/-! ### The chunks -/

def pqAuthChunkMagic : Bytes := utf8 "PQ_AUTH_CHUNK:"

/-- The index, the number of chunks and the data of a chunk PDU. -/
def parsePqChunk (payload : Bytes) : Option (UInt8 × UInt8 × Bytes) := do
  if !pqAuthChunkMagic.isPrefixOf payload then none
  let chunkIdx ← payload[14]?
  let totalChunks ← payload[15]?
  let chunkLen := fromBeBytes (← sliceAt payload 16 2)
  some (chunkIdx, totalChunks, ← sliceAt payload 18 chunkLen)

end Handshake

namespace Session

open Handshake

variable {C : Crypto}

/-- A session without a pinned commitment counts as authenticated. -/
def isPqAuthenticated (s : Session C) : Bool :=
  s.peerPqCommitment.isNone || s.pqAuthState = 1

def setPqAuthenticated (s : Session C) (valid : Bool) : Session C :=
  { s with pqAuthState := if valid then 1 else 2 }

/-- The chunks `idx`, `idx + 1`, ... joined; a missing one is an error. -/
def joinChunks (chunks : Lib.Table UInt8 Bytes) : ℕ → ℕ → Option Bytes
  | 0, _ => some []
  | count + 1, idx => do
      let chunk ← chunks.lookup (UInt8.ofNat idx)
      let rest ← joinChunks chunks count (idx + 1)
      some (chunk ++ rest)

/-- Keep a chunk of the peer's binding: the binding, once all of it is there. -/
def storePqChunk (s : Session C) (chunkIdx totalChunks : UInt8) (data : Bytes) :
    Option Bytes × Session C :=
  let chunks := s.pqIncomingChunks.insert chunkIdx data
  let s := { s with pqIncomingChunks := chunks }
  if Lib.Table.size chunks = totalChunks.toNat then (joinChunks chunks totalChunks.toNat 0, s)
  else (none, s)

/-! ### What the handshake leaves in a session -/

/-- What a handshake and a proof determine in a session. -/
structure Standing (C : Crypto) where
  masterKey : C.Key
  cipherSuite : HybridCipherSuite
  peerIdentityPk : Option Bytes
  peerPqCommitment : Option Bytes
  pqAuthState : ℕ

def standing (s : Session C) : Standing C :=
  { masterKey := s.masterKey, cipherSuite := s.cipherSuite, peerIdentityPk := s.peerIdentityPk
    peerPqCommitment := s.peerPqCommitment, pqAuthState := s.pqAuthState }

variable (s : Session C)

@[simp] theorem standing_storePqChunk (chunkIdx totalChunks : UInt8) (data : Bytes) :
    (s.storePqChunk chunkIdx totalChunks data).2.standing = s.standing := by
  simp only [storePqChunk]
  split <;> rfl

theorem standing_activateEpoch (now epoch : ℕ) :
    (s.activateEpoch now epoch).2.standing = s.standing := by
  unfold activateEpoch
  split
  · rfl
  · dsimp only
    split <;> rfl

theorem standing_finishRatchetStep (now : ℕ) (answer : RatchetAnswer C) :
    (s.finishRatchetStep now answer).2.standing = s.standing := by
  unfold finishRatchetStep
  split
  · rfl
  · dsimp only
    split
    · rfl
    split <;> rfl

theorem standing_finishQuantumMix (now epoch : ℕ) (confirm : C.Key) :
    (s.finishQuantumMix now epoch confirm).2.standing = s.standing := by
  unfold finishQuantumMix
  split
  · rfl
  split
  · rfl
  split
  · rfl
  have hactivate := standing_activateEpoch s now epoch
  split
  · rename_i s' heq
    rw [heq] at hactivate
    exact hactivate
  · rename_i s' heq
    rw [heq] at hactivate
    exact hactivate

end Session

open Session

@[simp] theorem SessionOp.standing_run {C : Crypto} (s : Session C) (op : SessionOp C) :
    (op.run s).standing = s.standing := by
  cases op with
  | sealMessage | commitOpen | checkInbound | applyRatchetStep | abandonRatchetStep
  | abandonQuantumMix => rfl
  | activateEpoch now epoch => exact standing_activateEpoch s now epoch
  | finishRatchetStep now answer => exact standing_finishRatchetStep s now answer
  | finishQuantumMix now epoch confirm => exact standing_finishQuantumMix s now epoch confirm
  | triggerForcedRatchetStep now =>
      simp only [run, Session.triggerForcedRatchetStep]
      split
      · rfl
      split
      · split <;> rfl
      · rfl
  | beginRatchetStep now step =>
      simp only [run, Session.beginRatchetStep]
      split
      · rfl
      split <;> rfl
  | answerRatchetStep step coins peerX peerKemPub =>
      simp only [run, Session.answerRatchetStep]
      split <;> rfl
  | admitPeerStep ourFingerprint =>
      simp only [run, Session.admitPeerStep]
      split
      · rfl
      split <;> rfl
  | beginQuantumMix now quantumKey label =>
      simp only [run, Session.beginQuantumMix]
      split
      · rfl
      split <;> rfl
  | answerQuantumMix now quantumKey peerEpoch peerConfirm label =>
      simp only [run, Session.answerQuantumMix]
      split
      · rfl
      split
      · rfl
      split <;> rfl
  | admitPeerQuantumMix ourFingerprint =>
      simp only [run, Session.admitPeerQuantumMix]
      split
      · rfl
      split <;> rfl

end Vantablack
