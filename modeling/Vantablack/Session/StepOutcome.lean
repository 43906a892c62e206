import Vantablack.Session.Basic
import Vantablack.Symbolic

/-!
Steps and mixes that fail. A finish that is refused, at whichever check, leaves the ratchet as it
was and gives back what the attempt had taken, so that the next attempt can begin: a session is
never left waiting for an answer that it has thrown away.
-/

namespace Vantablack.Session

variable {C : Crypto}

/-- The flag is up exactly while the material of a step is kept. -/
def Waiting (s : Session C) : Prop :=
  s.ratchetInProgress = true ↔ s.pendingStep.isSome = true

/-- The step that is in flight is not touched. -/
structure SameStep (s s' : Session C) : Prop where
  step : s'.pendingStep = s.pendingStep
  flag : s'.ratchetInProgress = s.ratchetInProgress

variable (s : Session C)

theorem SameStep.refl : SameStep s s := ⟨rfl, rfl⟩

theorem Waiting.same {s s' : Session C} (h : Waiting s) (hsame : SameStep s s') : Waiting s' := by
  rw [Waiting, hsame.flag, hsame.step]
  exact h

theorem waiting_idle {s : Session C} (hstep : s.pendingStep = none)
    (hflag : s.ratchetInProgress = false) : Waiting s := by
  rw [Waiting, hstep, hflag]
  simp

/-- The sessions any order of operations leads to. The methods that are not among the operations
keep other things in the session: the identity, the counters and the times. -/
inductive Reachable : Session C → Prop
  | new (masterKey : C.Key) (peerFingerprint : String) (role : SessionRole) (now : ℕ) :
      Reachable (newWithRole masterKey peerFingerprint role now)
  | run {s : Session C} (h : Reachable s) (op : SessionOp C) : Reachable (op.run s)
  | other {s s' : Session C} (h : Reachable s) (hsame : SameStep s s') : Reachable s'

/-! ### The step in flight -/

variable (now : ℕ)

theorem sameStep_triggerForcedRatchetStep : SameStep s (s.triggerForcedRatchetStep now).2 := by
  unfold triggerForcedRatchetStep
  split
  · exact .refl s
  split
  · split
    · exact .refl s
    · exact ⟨rfl, rfl⟩
  · exact ⟨rfl, rfl⟩

theorem sameStep_activateEpoch (epoch : ℕ) : SameStep s (s.activateEpoch now epoch).2 := by
  unfold activateEpoch
  split
  · exact .refl s
  · dsimp only
    split <;> exact ⟨rfl, rfl⟩

theorem sameStep_answerRatchetStep (step : RatchetStep C) (coins : C.Coins)
    (peerX peerKemPub : Bytes) :
    SameStep s (s.answerRatchetStep step coins peerX peerKemPub).2 := by
  unfold answerRatchetStep
  split <;> exact ⟨rfl, rfl⟩

theorem sameStep_beginQuantumMix (quantumKey : C.Key) (label : String) :
    SameStep s (s.beginQuantumMix now quantumKey label).2 := by
  unfold beginQuantumMix
  split
  · exact .refl s
  split
  · exact .refl s
  · exact ⟨rfl, rfl⟩

theorem sameStep_answerQuantumMix (quantumKey : C.Key) (peerEpoch : ℕ) (peerConfirm : C.Key)
    (label : String) :
    SameStep s (s.answerQuantumMix now quantumKey peerEpoch peerConfirm label).2 := by
  unfold answerQuantumMix
  split
  · exact .refl s
  dsimp only
  split
  · exact .refl s
  split
  · exact .refl s
  · exact ⟨rfl, rfl⟩

theorem sameStep_admitPeerQuantumMix (ourFingerprint : String) :
    SameStep s (s.admitPeerQuantumMix ourFingerprint).2 := by
  unfold admitPeerQuantumMix
  split
  · exact .refl s
  split
  · exact .refl s
  · exact ⟨rfl, rfl⟩

theorem sameStep_finishQuantumMix (epoch : ℕ) (confirm : C.Key) :
    SameStep s (s.finishQuantumMix now epoch confirm).2 := by
  rcases s.finishQuantumMix_cases now epoch confirm with ⟨-, h⟩ | h | ⟨-, -, h⟩
  · rw [h]
    exact .refl s
  · rw [h]
    exact ⟨rfl, rfl⟩
  · rw [h]
    exact s.sameStep_activateEpoch now epoch

theorem Waiting.run {s : Session C} (h : Waiting s) (op : SessionOp C) : Waiting (op.run s) := by
  cases op with
  | sealMessage => exact h.same ⟨rfl, rfl⟩
  | commitOpen epoch direction plan => exact h.same ⟨rfl, rfl⟩
  | checkInbound now counter => exact h.same ⟨rfl, rfl⟩
  | triggerForcedRatchetStep now => exact h.same (s.sameStep_triggerForcedRatchetStep now)
  | activateEpoch now epoch => exact h.same (s.sameStep_activateEpoch now epoch)
  | applyRatchetStep now secrets => exact waiting_idle rfl rfl
  | beginRatchetStep now step =>
      simp only [SessionOp.run, beginRatchetStep]
      split
      · exact h
      split
      · exact h
      · simp [Waiting]
  | answerRatchetStep step coins peerX peerKemPub =>
      exact h.same (s.sameStep_answerRatchetStep step coins peerX peerKemPub)
  | finishRatchetStep now answer =>
      simp only [SessionOp.run]
      rcases s.finishRatchetStep_cases now answer with ⟨-, heq⟩ | heq | ⟨step, epoch, -, -, heq⟩
      · rw [heq]
        exact h
      · rw [heq]
        exact waiting_idle rfl rfl
      · rw [heq]
        exact waiting_idle rfl rfl
  | abandonRatchetStep => exact waiting_idle rfl rfl
  | admitPeerStep ourFingerprint =>
      simp only [SessionOp.run, admitPeerStep]
      split
      · exact h
      split
      · exact h
      · exact waiting_idle rfl rfl
  | beginQuantumMix now quantumKey label =>
      exact h.same (s.sameStep_beginQuantumMix now quantumKey label)
  | answerQuantumMix now quantumKey peerEpoch peerConfirm label =>
      exact h.same (s.sameStep_answerQuantumMix now quantumKey peerEpoch peerConfirm label)
  | finishQuantumMix now epoch confirm =>
      exact h.same (s.sameStep_finishQuantumMix now epoch confirm)
  | abandonQuantumMix => exact h.same ⟨rfl, rfl⟩
  | admitPeerQuantumMix ourFingerprint =>
      exact h.same (s.sameStep_admitPeerQuantumMix ourFingerprint)

theorem Reachable.waiting {s : Session C} (h : Reachable s) : Waiting s := by
  induction h with
  | new masterKey peerFingerprint role now => exact waiting_idle rfl rfl
  | run _ op ih => exact ih.run op
  | other _ hsame ih => exact ih.same hsame

/-! ### Refusals -/

theorem finishRatchetStep_refused {s : Session C} (h : Waiting s) {now : ℕ}
    {answer : RatchetAnswer C} (hnone : (s.finishRatchetStep now answer).1 = none) :
    (s.finishRatchetStep now answer).2.ratchet = s.ratchet ∧
      (s.finishRatchetStep now answer).2.ratchetInProgress = false := by
  rcases s.finishRatchetStep_cases now answer with ⟨hp, heq⟩ | heq | ⟨step, epoch, -, -, heq⟩
  · rw [heq]
    refine ⟨rfl, ?_⟩
    rw [Waiting, hp] at h
    simpa using h
  · rw [heq]
    exact ⟨rfl, rfl⟩
  · rw [heq] at hnone
    cases hnone

theorem beginRatchetStep_isSome_iff {s : Session C} (hidle : s.ratchetInProgress = false) (now : ℕ)
    (step : RatchetStep C) :
    (s.beginRatchetStep now step).1.isSome = true ↔ s.quantumMixInProgress = false := by
  unfold beginRatchetStep
  rw [hidle]
  cases s.quantumMixInProgress <;> simp

theorem finishQuantumMix_refused {s : Session C} {now epoch : ℕ} {confirm : C.Key}
    (hnone : (s.finishQuantumMix now epoch confirm).1 = none) :
    (s.finishQuantumMix now epoch confirm).2.ratchet = s.ratchet ∧
      (s.pendingQuantumMix.isSome = true →
        (s.finishQuantumMix now epoch confirm).2.quantumMixInProgress = false) := by
  rcases s.finishQuantumMix_cases now epoch confirm with ⟨hp, heq⟩ | heq | ⟨-, -, heq⟩
  · rw [heq, hp]
    refine ⟨rfl, ?_⟩
    intro h
    cases h
  · rw [heq]
    exact ⟨rfl, fun _ => rfl⟩
  · rw [heq] at hnone
    cases hnone

/-- In every session a step is in flight exactly while its material is kept. A step or a mix that
is refused leaves the ratchet as it was and is over; after a step the next one can begin unless a
mix is in flight. -/
theorem refused_is_over {s : Session C} (h : Reachable s) :
    (s.ratchetInProgress = true ↔ s.pendingStep.isSome = true) ∧
    (∀ now answer, (s.finishRatchetStep now answer).1 = none →
      (s.finishRatchetStep now answer).2.ratchet = s.ratchet ∧
      (s.finishRatchetStep now answer).2.ratchetInProgress = false ∧
      ∀ now' step, ((s.finishRatchetStep now answer).2.beginRatchetStep now' step).1.isSome = true ↔
        (s.finishRatchetStep now answer).2.quantumMixInProgress = false) ∧
    ∀ now epoch confirm, (s.finishQuantumMix now epoch confirm).1 = none →
      (s.finishQuantumMix now epoch confirm).2.ratchet = s.ratchet ∧
      (s.pendingQuantumMix.isSome = true →
        (s.finishQuantumMix now epoch confirm).2.quantumMixInProgress = false) := by
  refine ⟨h.waiting, fun now answer hnone => ?_, fun now epoch confirm hnone => ?_⟩
  · obtain ⟨hratchet, hidle⟩ := finishRatchetStep_refused h.waiting hnone
    exact ⟨hratchet, hidle, fun now' step => beginRatchetStep_isSome_iff hidle now' step⟩
  · exact finishQuantumMix_refused hnone

/-- A step is begun, and the answer names the wrong epoch. -/
theorem refused_is_over_of_stale :
    let op : SessionOp .symbolic := .beginRatchetStep 1 ⟨[1], [2]⟩
    let s := op.run (newWithRole (Term.master 7) "peer" .initiator 0)
    let answer : RatchetAnswer .symbolic :=
      { xPublic := [3], kemCt := [4], confirm := Term.master 0, epoch := 9 }
    s.ratchetInProgress = true ∧ (s.finishRatchetStep 2 answer).1 = none ∧
      (s.finishRatchetStep 2 answer).2.ratchetInProgress = false := by
  intro op s answer
  have hreach : Reachable s := .run (.new (Term.master 7) "peer" .initiator 0) op
  exact ⟨rfl, rfl, ((refused_is_over hreach).2.1 2 answer rfl).2.1⟩

end Vantablack.Session
