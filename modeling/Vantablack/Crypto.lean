import Mathlib.Data.UInt
import Mathlib.Tactic.TypeStar

/-!
The primitives the protocol is built on: X25519, ML-KEM-512 and the HKDF and HMAC
derivations of `layers/l1_kem.rs`. They come from third-party crates, so they are the
fields of one structure, and a result that relies on a property of a primitive names
it as a hypothesis.

What travels on the wire is bytes. Secrets and derived keys are abstract types: that
way "the key derivation is injective" is a hypothesis some instance meets.
-/

namespace Vantablack

/-- A byte string, the model of `&[u8]`, `Vec<u8>` and `[u8; n]`. -/
abbrev Bytes := List UInt8

/-- The two directions of a session (`NonceDirection` of `layers/l2_aead.rs`). -/
inductive NonceDirection where
  | initiatorToResponder
  | responderToInitiator
  deriving DecidableEq, Repr

/-- What the peer seals in, given what we seal in. -/
def NonceDirection.peerDirection : NonceDirection → NonceDirection
  | .initiatorToResponder => .responderToInitiator
  | .responderToInitiator => .initiatorToResponder

/-- The primitives of the session layer. `Key` is the type of every 32-byte secret a
derivation produces and of the tags made from one; `Coins` is the randomness an
encapsulation draws. -/
structure Crypto where
  Key : Type
  XSecret : Type
  Dh : Type
  KemSecret : Type
  KemShared : Type
  Coins : Type
  decEqKey : DecidableEq Key
  xPublic : XSecret → Bytes
  diffieHellman : XSecret → Bytes → Dh
  kemPublic : KemSecret → Bytes
  /-- `kyber_encapsulate`: the ciphertext and the shared secret, unless the key is invalid. -/
  kyberEncapsulate : Coins → Bytes → Option (Bytes × KemShared)
  decapsulate : KemSecret → Bytes → KemShared
  /-- `kdf_ck`: the next chain key and the step key. -/
  kdfCk : Key → Key × Key
  /-- `kdf_rk_hybrid`: the next root and the chains to the responder and to the initiator. -/
  kdfRkHybrid : Key → Dh → KemShared → Key × Key × Key
  /-- `kdf_rk_quantum_mix`, in the same shape. -/
  kdfRkQuantumMix : Key → Key → Key × Key × Key
  /-- `seed_ratchet_chains`: the chains to the responder and to the initiator. -/
  seedRatchetChains : Key → Key × Key
  deriveEpochKey : Key → ℕ → Key
  ratchetConfirm : Key → Key
  computeSessionHash : Key → Bytes

instance (C : Crypto) : DecidableEq C.Key := C.decEqKey

/-- What the step exchange relies on: the derivations from a root to the confirmation
tag are injective, the two ends of an X25519 exchange agree, and a secret that does not
belong to the public key the other end used gives another result. -/
structure Crypto.IdealSteps (C : Crypto) : Prop where
  ratchetConfirm_inj : ∀ k k', C.ratchetConfirm k = C.ratchetConfirm k' → k = k'
  kdfCk_next_inj : ∀ k k', (C.kdfCk k).1 = (C.kdfCk k').1 → k = k'
  kdfCk_key_inj : ∀ k k', (C.kdfCk k).2 = (C.kdfCk k').2 → k = k'
  deriveEpochKey_inj : ∀ k e k' e', C.deriveEpochKey k e = C.deriveEpochKey k' e' →
    k = k' ∧ e = e'
  kdfRkHybrid_toResp_inj : ∀ r d k r' d' k',
    (C.kdfRkHybrid r d k).2.1 = (C.kdfRkHybrid r' d' k').2.1 → r = r' ∧ d = d' ∧ k = k'
  kdfRkHybrid_toInit_inj : ∀ r d k r' d' k',
    (C.kdfRkHybrid r d k).2.2 = (C.kdfRkHybrid r' d' k').2.2 → r = r' ∧ d = d' ∧ k = k'
  dh_comm : ∀ s s', C.diffieHellman s (C.xPublic s') = C.diffieHellman s' (C.xPublic s)
  dh_mismatch : ∀ s s' p, C.diffieHellman s p = C.diffieHellman s' p →
    C.xPublic s = C.xPublic s'

end Vantablack
