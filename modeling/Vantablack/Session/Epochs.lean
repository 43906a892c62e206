import Vantablack.Session.Basic

/-!
How any operation moves a session's epoch and replay window: the window only fills up
while the epoch stays, and it is emptied only together with an increase of the epoch.
-/

namespace Vantablack.Session

variable {C : Crypto}

/-- What is prepared is the next epoch. -/
def SlotNext (s : Session C) : Prop :=
  ∀ p, s.ratchet.pending = some p → p.epoch = s.epoch + 1

/-- `t` is where an operation can have taken `s` as far as epochs and the window go. -/
inductive EpochMove (s t : Session C) : Prop
  | stay (hepoch : t.epoch = s.epoch)
      (hwindow : ∀ counter, s.guard.Spent counter → t.guard.Spent counter)
      (hslot : SlotNext s → SlotNext t)
  | advance (hepoch : t.epoch = s.epoch + 1) (hslot : t.ratchet.pending = none)

variable {s t : Session C}

theorem EpochMove.same (hr : t.ratchet = s.ratchet) (hg : t.guard = s.guard) : EpochMove s t := by
  refine .stay ?_ ?_ ?_
  · rw [epoch, hr]
    rfl
  · intro counter h
    rwa [hg]
  · intro h p hp
    rw [hr] at hp
    rw [h p hp, epoch, epoch, hr]

theorem EpochMove.prepare {p : PreparedEpoch C} (hp : p.epoch = s.epoch + 1)
    (hr : t.ratchet = { s.ratchet with pending := some p }) (hg : t.guard = s.guard) :
    EpochMove s t := by
  have hepoch : t.epoch = s.epoch := by
    rw [epoch, hr]
    rfl
  refine .stay hepoch ?_ ?_
  · intro counter h
    rwa [hg]
  · intro _ p' hp'
    rw [hr] at hp'
    cases hp'
    rw [hp, hepoch]

theorem EpochMove.chains (hlive : t.ratchet.skeleton = s.ratchet.skeleton)
    (hslot : t.ratchet.pending.map (·.skeleton) = s.ratchet.pending.map (·.skeleton))
    (hg : t.guard = s.guard) : EpochMove s t := by
  have hepoch : t.epoch = s.epoch := congrArg Prod.fst hlive
  refine .stay hepoch ?_ ?_
  · intro counter h
    rwa [hg]
  · intro h p hp
    rw [hp, Option.map_some] at hslot
    obtain ⟨p', hp', hskel⟩ := Option.map_eq_some_iff.mp hslot.symm
    have he : p'.epoch = p.epoch := congrArg Prod.fst hskel
    rw [← he, h p' hp', hepoch]

theorem epochMove_activateEpoch (h : SlotNext s) (now epoch : ℕ) :
    EpochMove s (s.activateEpoch now epoch).2 := by
  rcases s.ratchet.activate_cases epoch with ⟨hact, _⟩ | ⟨p, hp, _, hact⟩
  · simp only [activateEpoch, hact]
    exact .same rfl rfl
  · simp only [activateEpoch, hact]
    split <;> exact .advance (h p hp) rfl

theorem epochMove_applyRatchetStep (s : Session C) (now : ℕ) (secrets : StepSecrets C) :
    EpochMove s (s.applyRatchetStep now secrets).2 :=
  .advance rfl rfl

theorem EpochMove.congr_right {u : Session C} (h : EpochMove s t) (hr : u.ratchet = t.ratchet)
    (hg : u.guard = t.guard) : EpochMove s u := by
  have hepoch : u.epoch = t.epoch := by
    rw [epoch, hr]
    rfl
  cases h with
  | stay he hwindow hslot =>
      refine .stay (hepoch.trans he) ?_ ?_
      · intro counter hs
        rw [hg]
        exact hwindow counter hs
      · intro hn p hp
        rw [hr] at hp
        rw [hslot hn p hp, hepoch]
  | advance he hslot => exact .advance (hepoch.trans he) (by rw [hr]; exact hslot)

theorem epochMove_run (h : SlotNext s) (op : SessionOp C) : EpochMove s (op.run s) := by
  cases op with
  | sealMessage =>
      obtain ⟨hlive, hslot⟩ := s.ratchet.advanceSeal_skeleton s.sealDirection
      exact .chains hlive (congrArg _ hslot) rfl
  | commitOpen epoch direction plan =>
      obtain ⟨hlive, hslot⟩ := s.ratchet.commitOpen_skeleton epoch direction plan
      exact .chains hlive hslot rfl
  | checkInbound now counter =>
      exact .stay rfl (fun _ hs => hs.checkAndUpdate) fun hn => hn
  | activateEpoch now epoch => exact epochMove_activateEpoch h now epoch
  | applyRatchetStep now secrets => exact epochMove_applyRatchetStep s now secrets
  | answerRatchetStep step coins peerX peerKemPub =>
      simp only [SessionOp.run, answerRatchetStep]
      split
      · exact .same rfl rfl
      · exact .prepare rfl rfl rfl
  | finishRatchetStep now answer =>
      simp only [SessionOp.run, finishRatchetStep]
      split
      · exact .same rfl rfl
      split
      · exact .same rfl rfl
      split
      · exact .same rfl rfl
      · exact .advance rfl rfl
  | beginQuantumMix now quantumKey label =>
      simp only [SessionOp.run, beginQuantumMix]
      split
      · exact .same rfl rfl
      split
      · exact .same rfl rfl
      · exact .prepare rfl rfl rfl
  | answerQuantumMix now quantumKey peerEpoch peerConfirm label =>
      simp only [SessionOp.run, answerQuantumMix]
      split
      · exact .same rfl rfl
      split
      · exact .same rfl rfl
      split
      · exact .same rfl rfl
      · exact .prepare rfl rfl rfl
  | finishQuantumMix now epoch confirm =>
      have hact := epochMove_activateEpoch h now epoch
      simp only [SessionOp.run, finishQuantumMix]
      split
      · exact .same rfl rfl
      split
      · exact .same rfl rfl
      split
      · exact .same rfl rfl
      split
      · rename_i heq
        rw [heq] at hact
        exact hact.congr_right rfl rfl
      · rename_i heq
        rwa [heq] at hact
  | abandonRatchetStep | abandonQuantumMix => exact .same rfl rfl
  | triggerForcedRatchetStep | beginRatchetStep | admitPeerStep | admitPeerQuantumMix =>
      simp only [SessionOp.run, triggerForcedRatchetStep, beginRatchetStep, admitPeerStep,
        admitPeerQuantumMix]
      repeat' split
      all_goals exact .same rfl rfl

theorem SlotNext.run (h : SlotNext s) (op : SessionOp C) : SlotNext (op.run s) := by
  cases epochMove_run h op with
  | stay _ _ hslot => exact hslot h
  | advance _ hnone =>
      intro p hp
      rw [hnone] at hp
      cases hp

theorem slotNext_newWithRole (masterKey : C.Key) (peerFingerprint : String) (role : SessionRole)
    (now : ℕ) : SlotNext (newWithRole masterKey peerFingerprint role now) := by
  intro p hp
  cases hp

end Vantablack.Session
