import Vantablack.Crypto
import Vantablack.Session.MsgChain

/-!
The session ratchet of `session/ratchet.rs`: the live epoch with its root key and the
chains of the two directions, the epochs retired but still openable, and the one slot
for an epoch that has been prepared and not installed.

The material a ratchet step draws (`RatchetStep::generate`) is an argument of the
functions that draw it.
-/

namespace Vantablack.Session

variable {C : Crypto}

/-- `RATCHET_INTERVAL`: frames one epoch may seal before a step is due. -/
@[irreducible] def ratchetInterval : ℕ := 1000000

def ratchetRetainedEpochs : ℕ := 2

/-- One direction's chain: the one-way key it advances from and its message chain. -/
structure ChainState (C : Crypto) where
  chain : C.Key
  msgChain : MsgChain C.Key

/-- Seed a chain and start its message chain. -/
def ChainState.seed (chainKey : C.Key) (epoch : ℕ) : ChainState C :=
  let chain := (C.kdfCk chainKey).1
  { chain := chain, msgChain := .seed (C.deriveEpochKey chain epoch) }

/-- Replace the message chain. -/
def ChainState.onMsgChain (f : MsgChain C.Key → MsgChain C.Key) (c : ChainState C) :
    ChainState C :=
  { c with msgChain := f c.msgChain }

structure RatchetEpoch (C : Crypto) where
  epoch : ℕ
  toResp : MsgChain C.Key
  toInit : MsgChain C.Key

def RatchetEpoch.msgChain (e : RatchetEpoch C) : NonceDirection → MsgChain C.Key
  | .initiatorToResponder => e.toResp
  | .responderToInitiator => e.toInit

def RatchetEpoch.onMsgChain (f : MsgChain C.Key → MsgChain C.Key) (e : RatchetEpoch C) :
    NonceDirection → RatchetEpoch C
  | .initiatorToResponder => { e with toResp := f e.toResp }
  | .responderToInitiator => { e with toInit := f e.toInit }

/-- A step that has been derived but not installed. -/
structure PreparedEpoch (C : Crypto) where
  epoch : ℕ
  rootKey : C.Key
  toResp : ChainState C
  toInit : ChainState C

def PreparedEpoch.msgChain (p : PreparedEpoch C) : NonceDirection → MsgChain C.Key
  | .initiatorToResponder => p.toResp.msgChain
  | .responderToInitiator => p.toInit.msgChain

def PreparedEpoch.onMsgChain (f : MsgChain C.Key → MsgChain C.Key) (p : PreparedEpoch C) :
    NonceDirection → PreparedEpoch C
  | .initiatorToResponder => { p with toResp := p.toResp.onMsgChain f }
  | .responderToInitiator => { p with toInit := p.toInit.onMsgChain f }

/-- What of a prepared epoch its derivation fixes; the message chains move on when
frames are opened in it. -/
def PreparedEpoch.skeleton (p : PreparedEpoch C) : ℕ × C.Key × C.Key × C.Key :=
  (p.epoch, p.rootKey, p.toResp.chain, p.toInit.chain)

@[simp] theorem PreparedEpoch.skeleton_onMsgChain (p : PreparedEpoch C)
    (f : MsgChain C.Key → MsgChain C.Key) (direction : NonceDirection) :
    (p.onMsgChain f direction).skeleton = p.skeleton := by
  cases direction <;> rfl

/-- The epoch seeded by what a root derivation returned. -/
def PreparedEpoch.ofRoot (epoch : ℕ) (out : C.Key × C.Key × C.Key) : PreparedEpoch C :=
  { epoch := epoch, rootKey := out.1, toResp := .seed out.2.1 epoch, toInit := .seed out.2.2 epoch }

/-- The message key at counter 0 of one direction of a freshly seeded epoch. -/
def PreparedEpoch.firstKey (p : PreparedEpoch C) (direction : NonceDirection) : C.Key :=
  (C.kdfCk (p.msgChain direction).chain).2

structure SessionRatchet (C : Crypto) where
  rootKey : C.Key
  toResp : ChainState C
  toInit : ChainState C
  epoch : ℕ
  steps : ℕ
  framesInEpoch : ℕ
  retired : List (RatchetEpoch C)
  pending : Option (PreparedEpoch C)

structure StepSecrets (C : Crypto) where
  dh : C.Dh
  kem : C.KemShared

/-- One side's ephemeral material for a step. -/
structure RatchetStep (C : Crypto) where
  xSecret : C.XSecret
  kemDk : C.KemSecret

namespace RatchetStep

def xPublicBytes (s : RatchetStep C) : Bytes := C.xPublic s.xSecret

def kemPublicBytes (s : RatchetStep C) : Bytes := C.kemPublic s.kemDk

/-- Responder side: encapsulate against the peer's material. -/
def respond (s : RatchetStep C) (coins : C.Coins) (peerXPub peerKemPub : Bytes) :
    Option (StepSecrets C × Bytes) :=
  match C.kyberEncapsulate coins peerKemPub with
  | some (ct, kem) => some ({ dh := C.diffieHellman s.xSecret peerXPub, kem := kem }, ct)
  | none => none

/-- Initiator side: open the responder's ciphertext. -/
def finish (s : RatchetStep C) (peerXPub kemCt : Bytes) : StepSecrets C :=
  { dh := C.diffieHellman s.xSecret peerXPub, kem := C.decapsulate s.kemDk kemCt }

end RatchetStep

namespace SessionRatchet

/-- Start a ratchet from the handshake's master key. -/
def new (masterKey : C.Key) : SessionRatchet C :=
  let chains := C.seedRatchetChains masterKey
  { rootKey := masterKey
    toResp := .seed chains.1 0
    toInit := .seed chains.2 0
    epoch := 0, steps := 0, framesInEpoch := 0, retired := [], pending := none }

/-- The same for the live epoch. -/
def skeleton (r : SessionRatchet C) : ℕ × C.Key × C.Key × C.Key :=
  (r.epoch, r.rootKey, r.toResp.chain, r.toInit.chain)

def msgChain (r : SessionRatchet C) : NonceDirection → MsgChain C.Key
  | .initiatorToResponder => r.toResp.msgChain
  | .responderToInitiator => r.toInit.msgChain

def onMsgChain (f : MsgChain C.Key → MsgChain C.Key) (r : SessionRatchet C) :
    NonceDirection → SessionRatchet C
  | .initiatorToResponder => { r with toResp := r.toResp.onMsgChain f }
  | .responderToInitiator => { r with toInit := r.toInit.onMsgChain f }

/-- Take the next message key for sealing: its counter, the key, the ratchet after. -/
def advanceSeal (r : SessionRatchet C) (direction : NonceDirection) :
    ℕ × C.Key × SessionRatchet C :=
  ((r.msgChain direction).pos, ((r.msgChain direction).advance C.kdfCk).1,
    r.onMsgChain (fun m => (m.advance C.kdfCk).2) direction)

/-- The prepared epoch, if it has this number. -/
def pendingAt (r : SessionRatchet C) (epoch : ℕ) : Option (PreparedEpoch C) :=
  match r.pending with
  | some p => if p.epoch = epoch then some p else none
  | none => none

/-- Plan how to open a counter of an epoch, changing nothing. The prepared epoch is
looked at first, then the live one, then the retired ones. -/
def planOpen (r : SessionRatchet C) (epoch : ℕ) (direction : NonceDirection) (counter : ℕ) :
    OpenPlan C.Key :=
  match r.pendingAt epoch with
  | some p => (p.msgChain direction).plan C.kdfCk counter
  | none =>
      if epoch = r.epoch then (r.msgChain direction).plan C.kdfCk counter
      else
        match r.retired.find? (·.epoch = epoch) with
        | some e => (e.msgChain direction).plan C.kdfCk counter
        | none => .refused

/-- Apply `f` to the first retired epoch numbered `epoch`. -/
def onRetired (epoch : ℕ) (f : RatchetEpoch C → RatchetEpoch C) :
    List (RatchetEpoch C) → List (RatchetEpoch C)
  | [] => []
  | e :: es => if e.epoch = epoch then f e :: es else e :: onRetired epoch f es

/-- Apply an open plan, on the chain `planOpen` would now look at. -/
def commitOpen (r : SessionRatchet C) (epoch : ℕ) (direction : NonceDirection)
    (plan : OpenPlan C.Key) : SessionRatchet C :=
  match r.pendingAt epoch with
  | some p => { r with pending := some (p.onMsgChain (·.commit plan) direction) }
  | none =>
      if epoch = r.epoch then r.onMsgChain (·.commit plan) direction
      else
        { r with retired := onRetired epoch (·.onMsgChain (·.commit plan) direction) r.retired }

/-- Whether a counter is more than `MAX_SKIP` ahead of the prepared or live chain. -/
def gapExceedsMaxSkip (r : SessionRatchet C) (epoch : ℕ) (direction : NonceDirection)
    (counter : ℕ) : Bool :=
  let exceeds (pos : ℕ) : Bool := counter > pos && counter - pos > maxSkip
  match r.pendingAt epoch with
  | some p => exceeds (p.msgChain direction).pos
  | none => if epoch = r.epoch then exceeds (r.msgChain direction).pos else false

/-- The epoch the live one is retired as, in front of those kept before. -/
def retire (r : SessionRatchet C) : List (RatchetEpoch C) :=
  ({ epoch := r.epoch, toResp := r.toResp.msgChain, toInit := r.toInit.msgChain } ::
    r.retired).take ratchetRetainedEpochs

/-- Install an epoch over the live one. -/
def install (r : SessionRatchet C) (p : PreparedEpoch C) : SessionRatchet C :=
  { r with
    rootKey := p.rootKey, toResp := p.toResp, toInit := p.toInit, epoch := p.epoch
    framesInEpoch := 0, retired := r.retire, pending := none }

/-- The epoch a hybrid step leads to. -/
def stepEpoch (r : SessionRatchet C) (secrets : StepSecrets C) : PreparedEpoch C :=
  .ofRoot (r.epoch + 1) (C.kdfRkHybrid r.rootKey secrets.dh secrets.kem)

/-- The epoch a quantum mix leads to. -/
def quantumEpoch (r : SessionRatchet C) (quantumKey : C.Key) : PreparedEpoch C :=
  .ofRoot (r.epoch + 1) (C.kdfRkQuantumMix r.rootKey quantumKey)

/-- Derive a step's epoch without installing it; with it the key the peer will seal
its first message in. -/
def prepareStep (r : SessionRatchet C) (secrets : StepSecrets C)
    (peerDirection : NonceDirection) : ℕ × C.Key × SessionRatchet C :=
  let p := r.stepEpoch secrets
  (p.epoch, p.firstKey peerDirection, { r with pending := some p })

/-- Install a prepared epoch; `none` if nothing is prepared for it. -/
def activate (r : SessionRatchet C) (epoch : ℕ) : Option (SessionRatchet C) :=
  match r.pendingAt epoch with
  | none => none
  | some p => some { r.install p with steps := r.steps + 1 }

def preparedEpoch (r : SessionRatchet C) : Option ℕ := r.pending.map (·.epoch)

/-- Count a frame sealed in the live epoch; `true` means a step is due. -/
def countSeal (r : SessionRatchet C) : Bool × SessionRatchet C :=
  (r.framesInEpoch + 1 ≥ ratchetInterval, { r with framesInEpoch := r.framesInEpoch + 1 })

/-- The message key a step would produce at counter 0, without applying it. -/
def previewStepKey (r : SessionRatchet C) (secrets : StepSecrets C)
    (direction : NonceDirection) : ℕ × C.Key :=
  (r.epoch + 1, (r.stepEpoch secrets).firstKey direction)

def step (r : SessionRatchet C) (secrets : StepSecrets C) : SessionRatchet C :=
  { r.install (r.stepEpoch secrets) with steps := r.steps + 1 }

/-- Derive a quantum mix's epoch without installing it. -/
def prepareQuantumMix (r : SessionRatchet C) (quantumKey : C.Key)
    (peerDirection : NonceDirection) : ℕ × C.Key × SessionRatchet C :=
  let p := r.quantumEpoch quantumKey
  (p.epoch, p.firstKey peerDirection, { r with pending := some p })

/-- The message key a quantum mix would produce at counter 0. -/
def previewQuantumMixKey (r : SessionRatchet C) (quantumKey : C.Key)
    (direction : NonceDirection) : ℕ × C.Key :=
  (r.epoch + 1, (r.quantumEpoch quantumKey).firstKey direction)

/-! ### Lemmas -/

theorem pendingAt_eq_some {r : SessionRatchet C} {epoch : ℕ} {p : PreparedEpoch C} :
    r.pendingAt epoch = some p ↔ r.pending = some p ∧ p.epoch = epoch := by
  unfold pendingAt
  cases hp : r.pending with
  | none => simp
  | some p' =>
      by_cases he : p'.epoch = epoch
      · simp only [if_pos he]
        constructor
        · rintro ⟨⟩
          exact ⟨rfl, he⟩
        · exact fun h => h.1
      · simp only [if_neg he]
        constructor
        · rintro ⟨⟩
        · rintro ⟨⟨⟩, h⟩
          exact absurd h he

theorem pendingAt_eq_none {r : SessionRatchet C} {epoch : ℕ} :
    r.pendingAt epoch = none ↔ r.preparedEpoch ≠ some epoch := by
  unfold pendingAt preparedEpoch
  cases r.pending with
  | none => simp
  | some p => by_cases he : p.epoch = epoch <;> simp [he]

variable (r : SessionRatchet C)

theorem activate_cases (epoch : ℕ) :
    r.activate epoch = none ∧ r.preparedEpoch ≠ some epoch ∨
    ∃ p, r.pending = some p ∧ p.epoch = epoch ∧
      r.activate epoch = some { r.install p with steps := r.steps + 1 } := by
  unfold activate
  cases hp : r.pendingAt epoch with
  | none => exact .inl ⟨rfl, pendingAt_eq_none.mp hp⟩
  | some p =>
      obtain ⟨hpend, he⟩ := pendingAt_eq_some.mp hp
      exact .inr ⟨p, hpend, he, rfl⟩

theorem commitOpen_skeleton (epoch : ℕ) (direction : NonceDirection) (plan : OpenPlan C.Key) :
    (r.commitOpen epoch direction plan).skeleton = r.skeleton ∧
      (r.commitOpen epoch direction plan).pending.map (·.skeleton) =
        r.pending.map (·.skeleton) := by
  unfold commitOpen
  cases hp : r.pendingAt epoch with
  | some p =>
      refine ⟨rfl, ?_⟩
      simp [(pendingAt_eq_some.mp hp).1]
  | none =>
      simp only
      split
      · cases direction <;> exact ⟨rfl, rfl⟩
      · exact ⟨rfl, rfl⟩

theorem advanceSeal_skeleton (direction : NonceDirection) :
    (r.advanceSeal direction).2.2.skeleton = r.skeleton ∧
      (r.advanceSeal direction).2.2.pending = r.pending := by
  cases direction <;> exact ⟨rfl, rfl⟩

end SessionRatchet

end Vantablack.Session
