import Vantablack.Session.Basic
import Vantablack.Symbolic

/-!
When a session credits itself with a quantum mix. The epoch a mix prepares sits in the
ratchet's one slot, the record that the mix is pending sits in the session, and
`activate_epoch` matches the two by number only.
-/

namespace Vantablack.Session

variable {C : Crypto}

/-- The prepared epoch was derived from this ratchet's root by `kdf_rk_quantum_mix`. -/
def FromQuantumMix (r : SessionRatchet C) (p : PreparedEpoch C) : Prop :=
  ∃ quantumKey, p.skeleton = (r.quantumEpoch quantumKey).skeleton

/-- `activate_epoch epoch` would take the branch that credits a quantum mix. -/
def CreditsQuantumMix (s : Session C) (epoch : ℕ) : Prop :=
  s.preparedEpoch = some epoch ∧ s.pendingQuantumMix.map (·.epoch) = some epoch

/-- Between `s` and `t` an epoch was installed that `kdf_rk_quantum_mix` derived. -/
def QuantumInstalled (s t : Session C) : Prop :=
  ∃ quantumKey, t.ratchet.skeleton = (s.ratchet.quantumEpoch quantumKey).skeleton

/-- The operation does not put a hybrid step's epoch where a pending quantum mix
expects its own. -/
def KeepsMix (s : Session C) : SessionOp C → Prop
  | .answerRatchetStep step coins peerX peerKemPub =>
      step.respond coins peerX peerKemPub = none ∨
        s.pendingQuantumMix.map (·.epoch) ≠ some (s.epoch + 1)
  | _ => True

/-- A credit the operation is about to give is for an epoch of a quantum mix. -/
def SoundCredit (s : Session C) (op : SessionOp C) : Prop :=
  match op with
  | .activateEpoch _ epoch => CreditsQuantumMix s epoch → QuantumInstalled s (op.run s)
  | .finishQuantumMix now epoch confirm =>
      (s.finishQuantumMix now epoch confirm).1.isSome = true → QuantumInstalled s (op.run s)
  | _ => True

/-! ### The slot and the pending mix stay together -/

structure MixInv (s : Session C) : Prop where
  slot_epoch : ∀ p, s.ratchet.pending = some p → p.epoch = s.ratchet.epoch + 1
  mix_epoch : ∀ m, s.pendingQuantumMix = some m → m.epoch ≤ s.ratchet.epoch + 1
  slot_mix : ∀ p m, s.ratchet.pending = some p → s.pendingQuantumMix = some m →
    m.epoch = p.epoch → FromQuantumMix s.ratchet p

theorem mixInv_newWithRole (masterKey : C.Key) (peerFingerprint : String) (role : SessionRole)
    (now : ℕ) : MixInv (newWithRole masterKey peerFingerprint role now) where
  slot_epoch := by
    intro p hp
    cases hp
  mix_epoch := by
    intro m hm
    cases hm
  slot_mix := by
    intro p m hp
    cases hp

variable {s : Session C}

theorem MixInv.frame {t : Session C} (h : MixInv s)
    (hlive : t.ratchet.skeleton = s.ratchet.skeleton)
    (hslot : t.ratchet.pending.map (·.skeleton) = s.ratchet.pending.map (·.skeleton))
    (hmix : ∀ m, t.pendingQuantumMix = some m → s.pendingQuantumMix = some m) : MixInv t := by
  have hepoch : t.ratchet.epoch = s.ratchet.epoch := congrArg Prod.fst hlive
  have hroot : t.ratchet.rootKey = s.ratchet.rootKey := congrArg (·.2.1) hlive
  have hback : ∀ p, t.ratchet.pending = some p →
      ∃ p', s.ratchet.pending = some p' ∧ p'.skeleton = p.skeleton := by
    intro p hp
    rw [hp, Option.map_some] at hslot
    exact Option.map_eq_some_iff.mp hslot.symm
  refine ⟨?_, ?_, ?_⟩
  · intro p hp
    obtain ⟨p', hp', hskel⟩ := hback p hp
    have he : p'.epoch = p.epoch := congrArg Prod.fst hskel
    rw [← he, hepoch]
    exact h.slot_epoch p' hp'
  · intro m hm
    rw [hepoch]
    exact h.mix_epoch m (hmix m hm)
  · intro p m hp hm heq
    obtain ⟨p', hp', hskel⟩ := hback p hp
    have he : p'.epoch = p.epoch := congrArg Prod.fst hskel
    obtain ⟨q, hq⟩ := h.slot_mix p' m hp' (hmix m hm) (heq.trans he.symm)
    refine ⟨q, ?_⟩
    rw [← hskel, hq]
    simp only [SessionRatchet.quantumEpoch, hroot, hepoch]

theorem MixInv.installed {t : Session C} (h : MixInv s)
    (hepoch : t.ratchet.epoch = s.ratchet.epoch + 1) (hslot : t.ratchet.pending = none)
    (hmix : ∀ m, t.pendingQuantumMix = some m → s.pendingQuantumMix = some m) : MixInv t where
  slot_epoch := by
    intro p hp
    rw [hslot] at hp
    cases hp
  mix_epoch := by
    intro m hm
    have := h.mix_epoch m (hmix m hm)
    omega
  slot_mix := by
    intro p m hp
    rw [hslot] at hp
    cases hp

theorem MixInv.abandonQuantumMix (h : MixInv s) : MixInv s.abandonQuantumMix :=
  h.frame rfl rfl (by
    intro m hm
    cases hm)

theorem MixInv.applyRatchetStep (h : MixInv s) (now : ℕ) (secrets : StepSecrets C) :
    MixInv (s.applyRatchetStep now secrets).2 :=
  h.installed rfl rfl fun _ hm => hm

theorem activateEpoch_cases (s : Session C) (now epoch : ℕ) :
    s.activateEpoch now epoch = (false, s) ∧ s.preparedEpoch ≠ some epoch ∨
    ∃ p, s.ratchet.pending = some p ∧ p.epoch = epoch ∧
      (s.activateEpoch now epoch).1 = true ∧
      (s.activateEpoch now epoch).2.ratchet =
        { s.ratchet.install p with steps := s.ratchet.steps + 1 } ∧
      ((s.activateEpoch now epoch).2.pendingQuantumMix = none ∧
          (s.activateEpoch now epoch).2.quantumMixed = true ∧ CreditsQuantumMix s epoch ∨
        (s.activateEpoch now epoch).2.pendingQuantumMix = s.pendingQuantumMix ∧
          (s.activateEpoch now epoch).2.quantumMixed = s.quantumMixed ∧
          ¬ CreditsQuantumMix s epoch) := by
  rcases s.ratchet.activate_cases epoch with ⟨hact, hne⟩ | ⟨p, hp, rfl, hact⟩
  · exact .inl ⟨by simp only [activateEpoch, hact], hne⟩
  · refine .inr ⟨p, hp, rfl, ?_⟩
    have hprep : s.preparedEpoch = some p.epoch := by
      rw [preparedEpoch, SessionRatchet.preparedEpoch, hp, Option.map_some]
    by_cases hm : s.pendingQuantumMix.map (·.epoch) = some p.epoch
    · simp only [activateEpoch, hact, hm, if_true]
      exact ⟨trivial, trivial, .inl ⟨trivial, trivial, hprep, hm⟩⟩
    · simp only [activateEpoch, hact, hm, if_false]
      exact ⟨trivial, trivial, .inr ⟨trivial, trivial, fun hc => hm hc.2⟩⟩

theorem MixInv.activateEpoch (h : MixInv s) (now epoch : ℕ) :
    MixInv (s.activateEpoch now epoch).2 := by
  rcases activateEpoch_cases s now epoch with ⟨heq, _⟩ | ⟨p, hp, _, _, hr, hmix⟩
  · rw [heq]
    exact h
  · refine h.installed ?_ ?_ ?_
    · rw [hr]
      exact h.slot_epoch p hp
    · rw [hr]
      rfl
    · intro m hm
      rcases hmix with ⟨hnone, _⟩ | ⟨hsame, _⟩
      · rw [hnone] at hm
        cases hm
      · rwa [hsame] at hm

theorem MixInv.credit (h : MixInv s) {now epoch : ℕ} (hc : CreditsQuantumMix s epoch) :
    QuantumInstalled s (s.activateEpoch now epoch).2 := by
  rcases activateEpoch_cases s now epoch with ⟨_, hne⟩ | ⟨p, hp, rfl, _, hr, _⟩
  · exact absurd hc.1 hne
  · obtain ⟨m, hm, hme⟩ := Option.map_eq_some_iff.mp hc.2
    obtain ⟨q, hq⟩ := h.slot_mix p m hp hm hme
    refine ⟨q, ?_⟩
    rw [hr, ← hq]
    rfl

/-! ### One operation -/

theorem MixInv.finishQuantumMix (h : MixInv s) (now epoch : ℕ) (confirm : C.Key) :
    MixInv (s.finishQuantumMix now epoch confirm).2 := by
  unfold Session.finishQuantumMix
  split
  · exact h
  · split
    · exact h.abandonQuantumMix
    split
    · exact h.abandonQuantumMix
    have hact := h.activateEpoch now epoch
    split
    · rename_i heq
      rw [heq] at hact
      exact hact.abandonQuantumMix
    · rename_i heq
      rwa [heq] at hact

theorem MixInv.finishRatchetStep (h : MixInv s) (now : ℕ) (answer : RatchetAnswer C) :
    MixInv (s.finishRatchetStep now answer).2 := by
  have hdrop : MixInv { s with pendingStep := none } := h.frame rfl rfl fun _ hm => hm
  simp only [Session.finishRatchetStep]
  split
  · exact h
  · split
    · exact hdrop.frame rfl rfl fun _ hm => hm
    split
    · exact hdrop.frame rfl rfl fun _ hm => hm
    · exact hdrop.applyRatchetStep now _

theorem MixInv.answerRatchetStep (h : MixInv s) {step : RatchetStep C} {coins : C.Coins}
    {peerX peerKemPub : Bytes} (hk : KeepsMix s (.answerRatchetStep step coins peerX peerKemPub)) :
    MixInv (s.answerRatchetStep step coins peerX peerKemPub).2 := by
  simp only [Session.answerRatchetStep]
  split
  · exact h
  · rename_i secrets kemCt hresp
    have hmix : s.pendingQuantumMix.map (·.epoch) ≠ some (s.epoch + 1) := by
      rcases hk with hnone | hne
      · rw [hresp] at hnone
        cases hnone
      · exact hne
    refine ⟨?_, h.mix_epoch, ?_⟩
    · rintro p ⟨⟩
      rfl
    · rintro p m ⟨⟩ hm heq
      refine absurd ?_ hmix
      rw [show s.pendingQuantumMix = some m from hm, Option.map_some, heq]
      rfl

theorem MixInv.prepared {t : Session C} {quantumKey : C.Key} {m : PendingQuantumMix C}
    (hroot : t.ratchet.rootKey = s.ratchet.rootKey) (hepoch : t.ratchet.epoch = s.ratchet.epoch)
    (hslot : t.ratchet.pending = some (s.ratchet.quantumEpoch quantumKey))
    (hm : t.pendingQuantumMix = some m) (hme : m.epoch = s.ratchet.epoch + 1) : MixInv t where
  slot_epoch := by
    intro p hp
    rw [hslot] at hp
    cases hp
    rw [hepoch]
    rfl
  mix_epoch := by
    intro m' hm'
    rw [hm] at hm'
    cases hm'
    rw [hme, hepoch]
  slot_mix := by
    intro p _ hp _ _
    rw [hslot] at hp
    cases hp
    refine ⟨quantumKey, ?_⟩
    simp only [SessionRatchet.quantumEpoch, hroot, hepoch]

theorem MixInv.beginQuantumMix (h : MixInv s) (now : ℕ) (quantumKey : C.Key) (label : String) :
    MixInv (s.beginQuantumMix now quantumKey label).2 := by
  unfold Session.beginQuantumMix
  split
  · exact h
  split
  · exact h
  · exact .prepared rfl rfl rfl rfl rfl

theorem MixInv.answerQuantumMix (h : MixInv s) (now : ℕ) (quantumKey : C.Key) (peerEpoch : ℕ)
    (peerConfirm : C.Key) (label : String) :
    MixInv (s.answerQuantumMix now quantumKey peerEpoch peerConfirm label).2 := by
  simp only [Session.answerQuantumMix]
  split
  · exact h
  split
  · exact h
  split
  · exact h
  · exact .prepared rfl rfl rfl rfl rfl

theorem MixInv.run (h : MixInv s) (op : SessionOp C) (hk : KeepsMix s op) : MixInv (op.run s) := by
  cases op with
  | sealMessage =>
      obtain ⟨hlive, hslot⟩ := s.ratchet.advanceSeal_skeleton s.sealDirection
      exact h.frame hlive (congrArg _ hslot) fun _ hm => hm
  | commitOpen epoch direction plan =>
      obtain ⟨hlive, hslot⟩ := s.ratchet.commitOpen_skeleton epoch direction plan
      exact h.frame hlive hslot fun _ hm => hm
  | checkInbound now counter => exact h.frame rfl rfl fun _ hm => hm
  | triggerForcedRatchetStep now =>
      simp only [SessionOp.run, triggerForcedRatchetStep]
      repeat' split
      all_goals exact h.frame rfl rfl fun _ hm => hm
  | activateEpoch now epoch => exact h.activateEpoch now epoch
  | applyRatchetStep now secrets => exact h.applyRatchetStep now secrets
  | beginRatchetStep now step =>
      simp only [SessionOp.run, beginRatchetStep]
      split
      · exact h
      split
      · exact h
      · exact h.frame rfl rfl fun _ hm => hm
  | answerRatchetStep step coins peerX peerKemPub => exact h.answerRatchetStep hk
  | finishRatchetStep now answer => exact h.finishRatchetStep now answer
  | abandonRatchetStep => exact h.frame rfl rfl fun _ hm => hm
  | admitPeerStep ourFingerprint =>
      simp only [SessionOp.run, admitPeerStep]
      split
      · exact h
      split
      · exact h
      · exact h.frame rfl rfl fun _ hm => hm
  | beginQuantumMix now quantumKey label => exact h.beginQuantumMix now quantumKey label
  | answerQuantumMix now quantumKey peerEpoch peerConfirm label =>
      exact h.answerQuantumMix now quantumKey peerEpoch peerConfirm label
  | finishQuantumMix now epoch confirm => exact h.finishQuantumMix now epoch confirm
  | abandonQuantumMix => exact h.abandonQuantumMix
  | admitPeerQuantumMix ourFingerprint =>
      simp only [SessionOp.run, admitPeerQuantumMix]
      split
      · exact h
      split
      · exact h
      · exact h.abandonQuantumMix

theorem finishQuantumMix_credits (s : Session C) (now epoch : ℕ) (confirm : C.Key) :
    (s.finishQuantumMix now epoch confirm).1 = none ∧
      (s.finishQuantumMix now epoch confirm).2.quantumMixed = s.quantumMixed ∨
    CreditsQuantumMix s epoch ∧
      (s.finishQuantumMix now epoch confirm).2 = (s.activateEpoch now epoch).2 := by
  rcases s.finishQuantumMix_cases now epoch confirm with ⟨-, heq⟩ | heq | ⟨hwaits, hact, heq⟩
  · rw [heq]
    exact .inl ⟨rfl, rfl⟩
  · rw [heq]
    exact .inl ⟨rfl, rfl⟩
  · rw [heq]
    rcases activateEpoch_cases s now epoch with ⟨hfalse, -⟩ | ⟨p, hp, hpe, -, -, -⟩
    · rw [hfalse] at hact
      cases hact
    · refine .inr ⟨⟨?_, hwaits⟩, rfl⟩
      rw [preparedEpoch, SessionRatchet.preparedEpoch, hp, Option.map_some, hpe]

theorem MixInv.soundCredit (h : MixInv s) (op : SessionOp C) : SoundCredit s op := by
  cases op with
  | activateEpoch now epoch => exact h.credit
  | finishQuantumMix now epoch confirm =>
      intro hsome
      rcases finishQuantumMix_credits s now epoch confirm with ⟨hnone, _⟩ | ⟨hc, heq⟩
      · rw [hnone] at hsome
        cases hsome
      · rw [SessionOp.run, heq]
        exact h.credit hc
  | _ => trivial

theorem MixInv.raised (h : MixInv s) (op : SessionOp C) (hm : (op.run s).quantumMixed = true) :
    s.quantumMixed = true ∨ QuantumInstalled s (op.run s) := by
  cases op with
  | activateEpoch now epoch =>
      rcases activateEpoch_cases s now epoch with ⟨heq, _⟩ | ⟨_, _, _, _, _, hmix⟩
      · rw [SessionOp.run, heq] at hm
        exact .inl hm
      · rcases hmix with ⟨_, _, hc⟩ | ⟨_, hsame, _⟩
        · exact .inr (h.credit hc)
        · rw [SessionOp.run, hsame] at hm
          exact .inl hm
  | finishQuantumMix now epoch confirm =>
      rcases finishQuantumMix_credits s now epoch confirm with ⟨_, hsame⟩ | ⟨hc, heq⟩
      · rw [SessionOp.run, hsame] at hm
        exact .inl hm
      · rw [SessionOp.run, heq]
        exact .inr (h.credit hc)
  | sealMessage | commitOpen | checkInbound | applyRatchetStep | abandonRatchetStep
  | abandonQuantumMix => exact .inl hm
  | triggerForcedRatchetStep | beginRatchetStep | answerRatchetStep | finishRatchetStep
  | admitPeerStep | beginQuantumMix | answerQuantumMix | admitPeerQuantumMix =>
      left
      revert hm
      simp only [SessionOp.run, Session.triggerForcedRatchetStep, Session.beginRatchetStep,
        Session.answerRatchetStep, Session.finishRatchetStep, Session.admitPeerStep,
        Session.beginQuantumMix, Session.answerQuantumMix, Session.admitPeerQuantumMix]
      repeat' split
      all_goals exact id

/-- In every run of session operations that never answers a hybrid step while a pending
mix waits for the next epoch, the session counts as quantum mixed only if an epoch of a
quantum mix was installed, and no credit goes to any other epoch. -/
theorem quantum_credit_deserved (masterKey : C.Key) (peerFingerprint : String)
    (role : SessionRole) (now : ℕ) (ops : List (SessionOp C))
    (hk : Lib.Always SessionOp.run KeepsMix (newWithRole masterKey peerFingerprint role now) ops) :
    ((ops.foldl SessionOp.run (newWithRole masterKey peerFingerprint role now)).quantumMixed
        = true →
      Lib.Sometime SessionOp.run (fun s op => QuantumInstalled s (op.run s))
        (newWithRole masterKey peerFingerprint role now) ops) ∧
    Lib.Always SessionOp.run SoundCredit (newWithRole masterKey peerFingerprint role now) ops := by
  have h0 := mixInv_newWithRole masterKey peerFingerprint role now
  constructor
  · intro hmixed
    have hraised := Lib.Sometime.of_raised MixInv (fun s => s.quantumMixed = true)
      (fun _ op h hg => h.run op hg) (fun _ op h _ hm => h.raised op hm) h0 hk hmixed
    rcases hraised with hstart | hlater
    · cases hstart
    · exact hlater
  · exact Lib.Always.of_invariant MixInv (fun _ op h hg => h.run op hg)
      (fun _ op h _ => h.soundCredit op) h0 hk

/-- A mix begun and finished is credited, and its epoch is one of a quantum mix. -/
theorem quantum_credit_deserved_mix :
    ∃ ops : List (SessionOp .symbolic),
      (ops.foldl SessionOp.run (newWithRole (Term.master 0) "peer" .initiator 0)).quantumMixed
        = true ∧
      Lib.Sometime SessionOp.run (fun s op => QuantumInstalled s (op.run s))
        (newWithRole (Term.master 0) "peer" .initiator 0) ops := by
  let s0 : Session .symbolic := newWithRole (Term.master 0) "peer" .initiator 0
  let confirm : Term :=
    .confirm ((s0.ratchet.quantumEpoch (Term.master 7)).firstKey .initiatorToResponder)
  let ops : List (SessionOp .symbolic) :=
    [.beginQuantumMix 0 (Term.master 7) "label", .finishQuantumMix 0 1 confirm]
  have hmixed : (ops.foldl SessionOp.run s0).quantumMixed = true := by decide +kernel
  have hk : Lib.Always SessionOp.run KeepsMix s0 ops := ⟨trivial, trivial, trivial⟩
  exact ⟨ops, hmixed, (quantum_credit_deserved (C := .symbolic) _ _ _ _ ops hk).1 hmixed⟩

/-- A mix is begun, the peer's hybrid step is answered over it, and the epoch of the
step is credited as the mix. -/
theorem quantum_credit_of_hybrid_step :
    ¬ ∀ (C : Crypto) (masterKey : C.Key) (peerFingerprint : String) (role : SessionRole)
        (now : ℕ) (ops : List (SessionOp C)),
      (ops.foldl SessionOp.run (newWithRole masterKey peerFingerprint role now)).quantumMixed
        = true →
      Lib.Sometime SessionOp.run (fun s op => QuantumInstalled s (op.run s))
        (newWithRole masterKey peerFingerprint role now) ops := by
  intro h
  have hrun := h .symbolic (Term.master 0) "peer" .initiator 0
    [.beginQuantumMix 0 (Term.master 7) "label", .answerRatchetStep ⟨[1], [2]⟩ [3] [4] [5],
      .activateEpoch 0 1] (by decide +kernel)
  rcases hrun with ⟨q, hq⟩ | ⟨q, hq⟩ | ⟨q, hq⟩ | hnone
  · cases congrArg Prod.fst hq
  · cases congrArg Prod.fst hq
  · cases congrArg (·.2.1) hq
  · exact hnone

end Vantablack.Session
