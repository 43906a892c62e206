import Mathlib
import Vantablack.Layers.Kem

/-!
A symbolic instance of the primitives: a derived key is the term that says how it was
derived, so every derivation is injective and no two of them meet. A secret is its own
public key; an X25519 secret is the unordered pair of the two public keys, an ML-KEM
secret is the pair of the key and the ciphertext.
-/

namespace Vantablack

inductive Term where
  | master (n : ℕ)
  | ckNext (chain : Term)
  | ckKey (chain : Term)
  | rkHybrid (part : ℕ) (root : Term) (dh kem : Bytes × Bytes)
  | rkQuantum (part : ℕ) (root quantumKey : Term)
  | initChain (part : ℕ) (master : Term)
  | epochKey (chain : Term) (epoch : ℕ)
  | confirm (key : Term)
  | handshake (suite : HybridCipherSuite) (dh kem : Bytes × Bytes) (psk : Option (Octets 32))
      (transcript : List Bytes)
  deriving DecidableEq

/-- The two public keys of an exchange in a fixed order. -/
def Crypto.unordered (a b : Bytes) : Bytes × Bytes :=
  if a ≤ b then (a, b) else (b, a)

def Crypto.symbolic : Crypto where
  Key := Term
  XSecret := Bytes
  Dh := Bytes × Bytes
  KemSecret := Bytes
  KemShared := Bytes × Bytes
  Coins := Bytes
  decEqKey := inferInstance
  xPublic := id
  diffieHellman := Crypto.unordered
  kemPublic := id
  kyberEncapsulate coins pk := some (coins, (pk, coins))
  decapsulate sk ct := (sk, ct)
  kdfCk k := (.ckNext k, .ckKey k)
  kdfRkHybrid r dh kem := (.rkHybrid 0 r dh kem, .rkHybrid 1 r dh kem, .rkHybrid 2 r dh kem)
  kdfRkQuantumMix r q := (.rkQuantum 0 r q, .rkQuantum 1 r q, .rkQuantum 2 r q)
  seedRatchetChains m := (.initChain 0 m, .initChain 1 m)
  deriveEpochKey := .epochKey
  ratchetConfirm := .confirm
  computeSessionHash
    | .master n => [UInt8.ofNat n, 0, 0, 0]
    | _ => [0, 0, 0, 0]

/-- The same with X25519 keys of the length they have on the wire. -/
def Crypto.symbolicShares : Crypto :=
  { Crypto.symbolic with
    XSecret := Octets 32
    xPublic := List.Vector.toList
    diffieHellman := fun s p => Crypto.unordered s.toList p }

theorem Crypto.unordered_comm (a b : Bytes) :
    Crypto.unordered a b = Crypto.unordered b a := by
  unfold Crypto.unordered
  by_cases hab : a ≤ b
  · by_cases hba : b ≤ a
    · rw [if_pos hab, if_pos hba, List.le_antisymm hab hba]
    · rw [if_pos hab, if_neg hba]
  · have hba : b ≤ a := (List.le_total a b).resolve_left hab
    rw [if_neg hab, if_pos hba]

theorem Crypto.unordered_mismatch {a b p : Bytes}
    (h : Crypto.unordered a p = Crypto.unordered b p) : a = b := by
  unfold Crypto.unordered at h
  split at h <;> split at h <;> simp_all

theorem Crypto.symbolic_idealSteps : Crypto.symbolic.IdealSteps where
  ratchetConfirm_inj := fun _ _ h => by injection h
  kdfCk_next_inj := fun _ _ h => by injection h
  kdfCk_key_inj := fun _ _ h => by injection h
  deriveEpochKey_inj := fun _ _ _ _ h => by
    injection h with hk he
    exact ⟨hk, he⟩
  kdfRkHybrid_toResp_inj := fun _ _ _ _ _ _ h => by
    injection h with _ hr hd hk
    exact ⟨hr, hd, hk⟩
  kdfRkHybrid_toInit_inj := fun _ _ _ _ _ _ h => by
    injection h with _ hr hd hk
    exact ⟨hr, hd, hk⟩
  dh_comm := Crypto.unordered_comm
  dh_mismatch := fun _ _ _ h => Crypto.unordered_mismatch h

end Vantablack
