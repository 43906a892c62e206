import Vantablack.Layers.Kem
import Vantablack.Layers.SessionGuard
import Vantablack.Lib.Table
import Vantablack.Session.Ratchet

/-!
A session with one peer: `Session` of `session/mod.rs`, and its operations on the
ratchet. Each operation is one atomic step here. A method that only reads is a function
of the session; one that writes returns its result and the session after. Instants are
natural numbers and are passed in, as is all fresh randomness.

The counters of the statistics, the streams and the acknowledgement engine are left out.
-/

namespace Vantablack

namespace Session

variable {C : Crypto}

inductive SessionRole where
  | initiator
  | responder
  deriving DecidableEq, Repr

def SessionRole.sealDirection : SessionRole → NonceDirection
  | .initiator => .initiatorToResponder
  | .responder => .responderToInitiator

/-- A quantum mix waiting for its epoch to be installed. -/
structure PendingQuantumMix (C : Crypto) where
  epoch : ℕ
  confirm : C.Key
  label : String

/-- A responder's reply to a ratchet step. -/
structure RatchetAnswer (C : Crypto) where
  xPublic : Bytes
  kemCt : Bytes
  confirm : C.Key
  epoch : ℕ

end Session

open Session Layers

structure Session (C : Crypto) where
  masterKey : C.Key
  txCounter : ℕ
  guard : SessionGuardU64
  peerFingerprint : String
  establishedAt : ℕ
  sessionHash : Bytes
  role : SessionRole
  cipherSuite : HybridCipherSuite
  wireV1 : Bool
  ratchet : SessionRatchet C
  pendingStep : Option (RatchetStep C)
  ratchetStepAt : Option ℕ
  ratchetSteps : ℕ
  ratchetInProgress : Bool
  forcedRatchetDue : Bool
  peerIdentityPk : Option Bytes
  -- 0 = pending, 1 = authenticated, 2 = failed
  pqAuthState : ℕ
  peerPqCommitment : Option Bytes
  peerPqPk : Option Bytes
  pqIncomingChunks : Lib.Table UInt8 Bytes
  pqAuthRequestedAt : ℕ
  pendingQuantumMix : Option (PendingQuantumMix C)
  quantumMixAt : Option ℕ
  quantumMixAttemptAt : Option ℕ
  quantumMixInProgress : Bool
  quantumMixed : Bool

namespace Session

variable {C : Crypto}

def newWithRole (masterKey : C.Key) (peerFingerprint : String) (role : SessionRole) (now : ℕ) :
    Session C :=
  { masterKey := masterKey
    txCounter := 2
    guard := .new now
    peerFingerprint := peerFingerprint
    establishedAt := now
    sessionHash := C.computeSessionHash masterKey
    role := role
    cipherSuite := .x25519MlKem512V2
    wireV1 := false
    ratchet := .new masterKey
    pendingStep := none
    ratchetStepAt := none
    ratchetSteps := 0
    ratchetInProgress := false
    forcedRatchetDue := false
    peerIdentityPk := none
    pqAuthState := 0
    peerPqCommitment := none
    peerPqPk := none
    pqIncomingChunks := ∅
    pqAuthRequestedAt := now
    pendingQuantumMix := none
    quantumMixAt := none
    quantumMixAttemptAt := none
    quantumMixInProgress := false
    quantumMixed := false }

def sealDirection (s : Session C) : NonceDirection := s.role.sealDirection

def epoch (s : Session C) : ℕ := s.ratchet.epoch

def preparedEpoch (s : Session C) : Option ℕ := s.ratchet.preparedEpoch

/-! ### Sealing and opening -/

/-- What one message is sealed with. The nonce is random and left out. -/
structure SealMaterial (C : Crypto) where
  key : C.Key
  epoch : ℕ
  counter : ℕ
  direction : NonceDirection
  ratchetDue : Bool

def sealMaterial (s : Session C) : SealMaterial C × Session C :=
  let (counter, key, ratchet) := s.ratchet.advanceSeal s.sealDirection
  let (due, ratchet) := ratchet.countSeal
  ({ key := key, epoch := s.epoch, counter := counter, direction := s.sealDirection
     ratchetDue := due },
   { s with
     ratchet := ratchet, txCounter := counter + 1
     forcedRatchetDue := s.forcedRatchetDue || due })

/-- Increment and return the transmit counter, up to the end of the `u64`. -/
def tryNextTxCounter (s : Session C) : Option ℕ × Session C :=
  if s.txCounter + 1 < 2 ^ 64 then
    (some (s.txCounter + 1), { s with txCounter := s.txCounter + 1 })
  else (none, s)

def nextTxCounter (s : Session C) : ℕ × Session C :=
  let (next, s) := s.tryNextTxCounter
  (next.getD (2 ^ 64 - 1), s)

def planOpen (s : Session C) (epoch : ℕ) (direction : NonceDirection) (counter : ℕ) :
    OpenPlan C.Key :=
  s.ratchet.planOpen epoch direction counter

def commitOpen (s : Session C) (epoch : ℕ) (direction : NonceDirection) (plan : OpenPlan C.Key) :
    Session C :=
  { s with ratchet := s.ratchet.commitOpen epoch direction plan }

def checkInbound (s : Session C) (now counter : ℕ) : Bool × Session C :=
  let (ok, guard) := s.guard.checkAndUpdate now counter
  (ok, { s with guard := guard })

/-- Ask for a step out of turn, at most every 15 seconds. -/
def triggerForcedRatchetStep (s : Session C) (now : ℕ) : Bool × Session C :=
  if s.ratchetInProgress then (false, s)
  else
    match s.ratchetStepAt with
    | some prev =>
        if now - prev < 15 then (false, s)
        else (true, { s with ratchetStepAt := some now, forcedRatchetDue := true })
    | none => (true, { s with ratchetStepAt := some now, forcedRatchetDue := true })

/-- One turn of the loop of `open_received_frame`: plan, try the key, commit. The
verdict of the AEAD on the frame is `opens`. -/
def tryOpen (s : Session C) (now epoch counter : ℕ) (opens : NonceDirection → C.Key → Bool)
    (direction : NonceDirection) : Bool × Session C :=
  let plan := s.planOpen epoch direction counter
  match plan.key? with
  | none =>
      if s.ratchet.gapExceedsMaxSkip epoch direction counter then
        (false, (s.triggerForcedRatchetStep now).2)
      else (false, s)
  | some key =>
      if opens direction key then (true, s.commitOpen epoch direction plan) else (false, s)

/-- `open_received_frame` on a v2 frame: the peer's direction first, then ours. -/
def openReceivedFrame (s : Session C) (now epoch counter : ℕ)
    (opens : NonceDirection → C.Key → Bool) : Bool × Session C :=
  match s.tryOpen now epoch counter opens s.sealDirection.peerDirection with
  | (true, s) => (true, s)
  | (false, s) => s.tryOpen now epoch counter opens s.sealDirection

/-- Install a prepared epoch. A prepared epoch with the number of the pending quantum
mix is taken for that mix. -/
def activateEpoch (s : Session C) (now epoch : ℕ) : Bool × Session C :=
  match s.ratchet.activate epoch with
  | none => (false, s)
  | some ratchet =>
      let s := { s with
        ratchet := ratchet, ratchetSteps := s.ratchetSteps + 1, guard := s.guard.reset now }
      if s.pendingQuantumMix.map (·.epoch) = some epoch then
        (true, { s with
          pendingQuantumMix := none, quantumMixInProgress := false, quantumMixAt := none
          quantumMixed := true })
      else (true, s)

/-- Apply a completed step: the new epoch and the session after. -/
def applyRatchetStep (s : Session C) (now : ℕ) (secrets : StepSecrets C) : ℕ × Session C :=
  let ratchet := s.ratchet.step secrets
  (ratchet.epoch, { s with
    ratchet := ratchet, ratchetSteps := s.ratchetSteps + 1, ratchetInProgress := false
    pendingStep := none, ratchetStepAt := none, guard := s.guard.reset now })

/-! ### The hybrid step exchange -/

/-- Start a step with the freshly drawn material `step`. -/
def beginRatchetStep (s : Session C) (now : ℕ) (step : RatchetStep C) :
    Option (Bytes × Bytes) × Session C :=
  if s.quantumMixInProgress then (none, s)
  else if s.ratchetInProgress then (none, s)
  else
    (some (step.xPublicBytes, step.kemPublicBytes), { s with
      ratchetInProgress := true, forcedRatchetDue := false, pendingStep := some step
      ratchetStepAt := some now })

/-- Finish a step we started, from the peer's answer. The material is used up whether
or not the answer passes. -/
def finishRatchetStep (s : Session C) (now : ℕ) (answer : RatchetAnswer C) :
    Option ℕ × Session C :=
  match s.pendingStep with
  | none => (none, s)
  | some step =>
      let s := { s with pendingStep := none }
      let secrets := step.finish answer.xPublic answer.kemCt
      let (previewedEpoch, key) := s.ratchet.previewStepKey secrets s.sealDirection
      if answer.epoch ≠ previewedEpoch then (none, { s with ratchetInProgress := false })
      else if C.ratchetConfirm key ≠ answer.confirm then
        (none, { s with ratchetInProgress := false })
      else
        let (epoch, s) := s.applyRatchetStep now secrets
        (some epoch, s)

/-- Answer a peer's step with the freshly drawn material `step` and `coins`, and prepare
the new epoch without sealing on it yet. -/
def answerRatchetStep (s : Session C) (step : RatchetStep C) (coins : C.Coins)
    (peerX peerKemPub : Bytes) : Option (RatchetAnswer C) × Session C :=
  match step.respond coins peerX peerKemPub with
  | none => (none, s)
  | some (secrets, kemCt) =>
      let (epoch, key, ratchet) := s.ratchet.prepareStep secrets s.sealDirection.peerDirection
      (some { xPublic := step.xPublicBytes, kemCt := kemCt
              confirm := C.ratchetConfirm key, epoch := epoch },
       { s with ratchet := ratchet })

def abandonRatchetStep (s : Session C) : Session C :=
  { s with pendingStep := none, ratchetStepAt := none, ratchetInProgress := false }

/-- Whether an arriving step should be answered. Of a crossed pair the step of the
lower fingerprint wins; the other side abandons its own. -/
def admitPeerStep (s : Session C) (ourFingerprint : String) : Bool × Session C :=
  if !s.ratchetInProgress then (true, s)
  else if ourFingerprint < s.peerFingerprint then (false, s)
  else (true, s.abandonRatchetStep)

/-! ### The quantum mix exchange -/

def abandonQuantumMix (s : Session C) : Session C :=
  { s with pendingQuantumMix := none, quantumMixAt := none, quantumMixInProgress := false }

def beginQuantumMix (s : Session C) (now : ℕ) (quantumKey : C.Key) (label : String) :
    Option (PendingQuantumMix C) × Session C :=
  if s.ratchetInProgress then (none, s)
  else if s.quantumMixInProgress then (none, s)
  else
    let (epoch, key, ratchet) := s.ratchet.prepareQuantumMix quantumKey s.sealDirection
    let pending : PendingQuantumMix C :=
      { epoch := epoch, confirm := C.ratchetConfirm key, label := label }
    (some pending, { s with
      ratchet := ratchet, quantumMixInProgress := true, pendingQuantumMix := some pending
      quantumMixAt := some now })

/-- Answer a peer's quantum mix, once our key reproduces its tag. -/
def answerQuantumMix (s : Session C) (now : ℕ) (quantumKey : C.Key) (peerEpoch : ℕ)
    (peerConfirm : C.Key) (label : String) : Option C.Key × Session C :=
  if s.ratchetInProgress then (none, s)
  else
    let starterDirection := s.sealDirection.peerDirection
    let (epoch, key) := s.ratchet.previewQuantumMixKey quantumKey starterDirection
    if epoch ≠ peerEpoch then (none, s)
    else
      let confirm := C.ratchetConfirm key
      if confirm ≠ peerConfirm then (none, s)
      else
        let (preparedEpoch, preparedKey, ratchet) :=
          s.ratchet.prepareQuantumMix quantumKey starterDirection
        (some confirm, { s with
          ratchet := ratchet
          pendingQuantumMix := some
            { epoch := preparedEpoch, confirm := C.ratchetConfirm preparedKey, label := label }
          quantumMixAt := some now })

/-- Complete a mix we started, from the peer's answer. -/
def finishQuantumMix (s : Session C) (now epoch : ℕ) (confirm : C.Key) :
    Option ℕ × Session C :=
  match s.pendingQuantumMix with
  | none => (none, s)
  | some pending =>
      if pending.epoch ≠ epoch then (none, s.abandonQuantumMix)
      else if pending.confirm ≠ confirm then (none, s.abandonQuantumMix)
      else
        match s.activateEpoch now epoch with
        | (false, s) => (none, s.abandonQuantumMix)
        | (true, s) => (some epoch, s)

def admitPeerQuantumMix (s : Session C) (ourFingerprint : String) : Bool × Session C :=
  if !s.quantumMixInProgress then (true, s)
  else if ourFingerprint < s.peerFingerprint then (false, s)
  else (true, s.abandonQuantumMix)

theorem finishRatchetStep_cases (s : Session C) (now : ℕ) (answer : RatchetAnswer C) :
    s.pendingStep = none ∧ s.finishRatchetStep now answer = (none, s) ∨
    s.finishRatchetStep now answer =
      (none, { s with pendingStep := none, ratchetInProgress := false }) ∨
    ∃ step epoch, s.pendingStep = some step ∧
      let secrets := step.finish answer.xPublic answer.kemCt
      C.ratchetConfirm ((s.ratchet.stepEpoch secrets).firstKey s.sealDirection) =
        answer.confirm ∧
      s.finishRatchetStep now answer =
        (some epoch, ({ s with pendingStep := none }.applyRatchetStep now secrets).2) := by
  unfold finishRatchetStep
  cases hp : s.pendingStep with
  | none => exact .inl ⟨rfl, rfl⟩
  | some step =>
      refine .inr ?_
      dsimp only
      split
      · exact .inl rfl
      split
      · exact .inl rfl
      · rename_i hconf
        exact .inr ⟨step, _, rfl, not_not.mp hconf, rfl⟩

theorem eq_of_activateEpoch {s s' : Session C} {now epoch : ℕ}
    (h : s.activateEpoch now epoch = (false, s')) : s' = s := by
  unfold activateEpoch at h
  split at h
  · cases h
    rfl
  · dsimp only at h
    split at h <;> cases h

theorem finishQuantumMix_cases (s : Session C) (now epoch : ℕ) (confirm : C.Key) :
    s.pendingQuantumMix = none ∧ s.finishQuantumMix now epoch confirm = (none, s) ∨
    s.finishQuantumMix now epoch confirm = (none, s.abandonQuantumMix) ∨
    s.pendingQuantumMix.map (·.epoch) = some epoch ∧ (s.activateEpoch now epoch).1 = true ∧
      s.finishQuantumMix now epoch confirm = (some epoch, (s.activateEpoch now epoch).2) := by
  unfold finishQuantumMix
  cases hp : s.pendingQuantumMix with
  | none => exact .inl ⟨rfl, rfl⟩
  | some pending =>
      refine .inr ?_
      dsimp only
      split
      · exact .inl rfl
      rename_i hepoch
      split
      · exact .inl rfl
      split
      · rename_i hact
        rw [eq_of_activateEpoch hact]
        exact .inl rfl
      · rename_i hact
        rw [hact]
        exact .inr ⟨congrArg some (not_not.mp hepoch), rfl, rfl⟩

end Session

/-- An operation on a session together with its arguments. -/
inductive SessionOp (C : Crypto) where
  | sealMessage
  | commitOpen (epoch : ℕ) (direction : NonceDirection) (plan : OpenPlan C.Key)
  | checkInbound (now counter : ℕ)
  | triggerForcedRatchetStep (now : ℕ)
  | activateEpoch (now epoch : ℕ)
  | applyRatchetStep (now : ℕ) (secrets : StepSecrets C)
  | beginRatchetStep (now : ℕ) (step : RatchetStep C)
  | answerRatchetStep (step : RatchetStep C) (coins : C.Coins) (peerX peerKemPub : Bytes)
  | finishRatchetStep (now : ℕ) (answer : RatchetAnswer C)
  | abandonRatchetStep
  | admitPeerStep (ourFingerprint : String)
  | beginQuantumMix (now : ℕ) (quantumKey : C.Key) (label : String)
  | answerQuantumMix (now : ℕ) (quantumKey : C.Key) (peerEpoch : ℕ) (peerConfirm : C.Key)
      (label : String)
  | finishQuantumMix (now epoch : ℕ) (confirm : C.Key)
  | abandonQuantumMix
  | admitPeerQuantumMix (ourFingerprint : String)

def SessionOp.run {C : Crypto} (s : Session C) : SessionOp C → Session C
  | .sealMessage => s.sealMaterial.2
  | .commitOpen epoch direction plan => s.commitOpen epoch direction plan
  | .checkInbound now counter => (s.checkInbound now counter).2
  | .triggerForcedRatchetStep now => (s.triggerForcedRatchetStep now).2
  | .activateEpoch now epoch => (s.activateEpoch now epoch).2
  | .applyRatchetStep now secrets => (s.applyRatchetStep now secrets).2
  | .beginRatchetStep now step => (s.beginRatchetStep now step).2
  | .answerRatchetStep step coins peerX peerKemPub =>
      (s.answerRatchetStep step coins peerX peerKemPub).2
  | .finishRatchetStep now answer => (s.finishRatchetStep now answer).2
  | .abandonRatchetStep => s.abandonRatchetStep
  | .admitPeerStep ourFingerprint => (s.admitPeerStep ourFingerprint).2
  | .beginQuantumMix now quantumKey label => (s.beginQuantumMix now quantumKey label).2
  | .answerQuantumMix now quantumKey peerEpoch peerConfirm label =>
      (s.answerQuantumMix now quantumKey peerEpoch peerConfirm label).2
  | .finishQuantumMix now epoch confirm => (s.finishQuantumMix now epoch confirm).2
  | .abandonQuantumMix => s.abandonQuantumMix
  | .admitPeerQuantumMix ourFingerprint => (s.admitPeerQuantumMix ourFingerprint).2

/-- The operations that derive the chains of an epoch. -/
def SessionOp.seeds {C : Crypto} : SessionOp C → Bool
  | .applyRatchetStep .. | .answerRatchetStep .. | .finishRatchetStep .. | .beginQuantumMix ..
  | .answerQuantumMix .. => true
  | _ => false

end Vantablack
