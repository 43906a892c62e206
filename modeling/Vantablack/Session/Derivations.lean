import Vantablack.Session.Ratchet

/-!
The derivations of an epoch as `session/ratchet.rs` writes them out. A step is previewed, prepared
or taken at once, and a quantum mix likewise. The preview goes through the key derivations by
itself, the others seed the chains, and a prepared epoch gives its first key by a plan for
counter 0. What `Ratchet` states once is shown here of each of them.
-/

namespace Vantablack.Session

variable {C : Crypto}

namespace SessionRatchet

/-- The key the live epoch would next seal under; `none` is the branch that gives a zeroed key. -/
def sealKey (r : SessionRatchet C) (direction : NonceDirection) : Option C.Key :=
  ((r.msgChain direction).plan C.kdfCk (r.msgChain direction).pos).key?

/-! ### As they are written

The two functions of each pair differ in what they derive the new root from: `out` is what
`kdf_rk_hybrid` or `kdf_rk_quantum_mix` returns. -/

namespace Written

/-- A preview inlines the seeding of a chain. -/
def previewKey (r : SessionRatchet C) (out : C.Key × C.Key × C.Key) (direction : NonceDirection) :
    ℕ × C.Key :=
  let epoch := r.epoch + 1
  let chain :=
    match direction with
    | .initiatorToResponder => out.2.1
    | .responderToInitiator => out.2.2
  let nextChain := (C.kdfCk chain).1
  let epochSeed := C.deriveEpochKey nextChain epoch
  (epoch, (C.kdfCk epochSeed).2)

def previewStepKey (r : SessionRatchet C) (secrets : StepSecrets C) (direction : NonceDirection) :
    ℕ × C.Key :=
  previewKey r (C.kdfRkHybrid r.rootKey secrets.dh secrets.kem) direction

def previewQuantumMixKey (r : SessionRatchet C) (quantumKey : C.Key) (direction : NonceDirection) :
    ℕ × C.Key :=
  previewKey r (C.kdfRkQuantumMix r.rootKey quantumKey) direction

/-- What is prepared replaces what was; `none` is the branch marked as unreachable. -/
def prepare (r : SessionRatchet C) (out : C.Key × C.Key × C.Key) (peerDirection : NonceDirection) :
    Option (ℕ × C.Key × SessionRatchet C) :=
  let epoch := r.epoch + 1
  let toResp := ChainState.seed out.2.1 epoch
  let toInit := ChainState.seed out.2.2 epoch
  let plan :=
    match peerDirection with
    | .initiatorToResponder => toResp.msgChain.plan C.kdfCk 0
    | .responderToInitiator => toInit.msgChain.plan C.kdfCk 0
  match plan with
  | .forward key _ _ _ =>
      some (epoch, key, { r with pending := some { epoch := epoch
                                                   rootKey := out.1
                                                   toResp := toResp
                                                   toInit := toInit } })
  | .cached _ _ => none
  | .refused => none

def prepareStep (r : SessionRatchet C) (secrets : StepSecrets C) (peerDirection : NonceDirection) :
    Option (ℕ × C.Key × SessionRatchet C) :=
  prepare r (C.kdfRkHybrid r.rootKey secrets.dh secrets.kem) peerDirection

def prepareQuantumMix (r : SessionRatchet C) (quantumKey : C.Key) (peerDirection : NonceDirection) :
    Option (ℕ × C.Key × SessionRatchet C) :=
  prepare r (C.kdfRkQuantumMix r.rootKey quantumKey) peerDirection

/-- A new epoch at once. Whatever was prepared is dropped. -/
def reseed (r : SessionRatchet C) (out : C.Key × C.Key × C.Key) : SessionRatchet C :=
  let next := r.epoch + 1
  { rootKey := out.1
    toResp := .seed out.2.1 next
    toInit := .seed out.2.2 next
    epoch := next
    steps := r.steps
    framesInEpoch := 0
    retired := r.retire
    pending := none }

def step (r : SessionRatchet C) (secrets : StepSecrets C) : SessionRatchet C :=
  { reseed r (C.kdfRkHybrid r.rootKey secrets.dh secrets.kem) with steps := r.steps + 1 }

/-- A mix is not counted as a step. -/
def mixQuantumEntropy (r : SessionRatchet C) (quantumKey : C.Key) : SessionRatchet C :=
  reseed r (C.kdfRkQuantumMix r.rootKey quantumKey)

end Written

/-! ### One derivation -/

theorem key?_plan_pos (m : MsgChain C.Key) :
    (m.plan C.kdfCk m.pos).key? = some (C.kdfCk m.chain).2 := by
  rw [MsgChain.plan, if_neg (lt_irrefl _), Nat.sub_self, if_neg (Nat.not_lt_zero _)]
  rfl

theorem plan_seed (seed : C.Key) :
    (MsgChain.seed seed).plan C.kdfCk 0 =
      .forward (C.kdfCk seed).2 (C.kdfCk seed).1 (min 1 u64Max) [] := by
  have hpast : ¬ 0 < (MsgChain.seed seed).pos := Nat.not_lt_zero _
  have hgap : ¬ 0 - (MsgChain.seed seed).pos > maxSkip := Nat.not_lt_zero _
  rw [MsgChain.plan, if_neg hpast, if_neg hgap]
  rfl

variable (r : SessionRatchet C) (out : C.Key × C.Key × C.Key)

theorem previewKey_eq (direction : NonceDirection) :
    Written.previewKey r out direction =
      (r.epoch + 1, (PreparedEpoch.ofRoot (r.epoch + 1) out).firstKey direction) := by
  cases direction <;> rfl

theorem prepare_eq (peerDirection : NonceDirection) :
    Written.prepare r out peerDirection =
      some (r.epoch + 1, (PreparedEpoch.ofRoot (r.epoch + 1) out).firstKey peerDirection,
        { r with pending := some (.ofRoot (r.epoch + 1) out) }) := by
  cases peerDirection with
  | initiatorToResponder =>
      rw [Written.prepare]
      dsimp only [ChainState.seed]
      rw [plan_seed]
      rfl
  | responderToInitiator =>
      rw [Written.prepare]
      dsimp only [ChainState.seed]
      rw [plan_seed]
      rfl

theorem activate_prepared :
    activate { r with pending := some (.ofRoot (r.epoch + 1) out) } (r.epoch + 1) =
      some { Written.reseed r out with steps := r.steps + 1 } := by
  have hslot : pendingAt { r with pending := some (.ofRoot (r.epoch + 1) out) } (r.epoch + 1) =
      some (.ofRoot (r.epoch + 1) out) := if_pos rfl
  rw [activate, hslot]
  rfl

theorem sealKey_reseed (direction : NonceDirection) :
    (Written.reseed r out).sealKey direction =
      some ((PreparedEpoch.ofRoot (r.epoch + 1) out).firstKey direction) := by
  rw [sealKey, key?_plan_pos]
  cases direction <;> rfl

variable (secrets : StepSecrets C) (quantumKey : C.Key) (direction : NonceDirection)

theorem written_previewStepKey :
    Written.previewStepKey r secrets direction = r.previewStepKey secrets direction :=
  previewKey_eq r _ direction

theorem written_prepareStep :
    Written.prepareStep r secrets direction = some (r.prepareStep secrets direction) :=
  prepare_eq r _ direction

theorem written_step : Written.step r secrets = r.step secrets := rfl

theorem written_previewQuantumMixKey :
    Written.previewQuantumMixKey r quantumKey direction =
      r.previewQuantumMixKey quantumKey direction :=
  previewKey_eq r _ direction

theorem written_prepareQuantumMix :
    Written.prepareQuantumMix r quantumKey direction =
      some (r.prepareQuantumMix quantumKey direction) :=
  prepare_eq r _ direction

/-- Previewed, prepared and installed, or taken at once: a step gives one epoch, one key in each
direction and one state. So does a quantum mix, but for the count of the steps. -/
theorem derivations_agree :
    (∃ key prepared,
      Written.previewStepKey r secrets direction = ((Written.step r secrets).epoch, key) ∧
      Written.prepareStep r secrets direction =
        some ((Written.step r secrets).epoch, key, prepared) ∧
      (Written.step r secrets).sealKey direction = some key ∧
      prepared.activate (Written.step r secrets).epoch = some (Written.step r secrets)) ∧
    ∃ key prepared,
      Written.previewQuantumMixKey r quantumKey direction =
        ((Written.mixQuantumEntropy r quantumKey).epoch, key) ∧
      Written.prepareQuantumMix r quantumKey direction =
        some ((Written.mixQuantumEntropy r quantumKey).epoch, key, prepared) ∧
      (Written.mixQuantumEntropy r quantumKey).sealKey direction = some key ∧
      prepared.activate (Written.mixQuantumEntropy r quantumKey).epoch =
        some { Written.mixQuantumEntropy r quantumKey with steps := r.steps + 1 } := by
  have hagree (out : C.Key × C.Key × C.Key) : ∃ key prepared,
      Written.previewKey r out direction = (r.epoch + 1, key) ∧
      Written.prepare r out direction = some (r.epoch + 1, key, prepared) ∧
      (Written.reseed r out).sealKey direction = some key ∧
      prepared.activate (r.epoch + 1) = some { Written.reseed r out with steps := r.steps + 1 } :=
    ⟨_, _, previewKey_eq r out direction, prepare_eq r out direction,
      sealKey_reseed r out direction, activate_prepared r out⟩
  exact ⟨hagree _, hagree _⟩

end SessionRatchet

end Vantablack.Session
