import Vantablack.Session.Chains
import Vantablack.Session.Derivations

/-!
The numbers of the epochs a ratchet holds. An epoch lives in one of three places: it is prepared,
live or retired, and `plan_open` and `commit_open` look there in this order. Whatever was done, the
prepared epoch is the next one and the retired ones are those just before the live one, so that no
number is found in two places and the order does not matter.
-/

namespace Vantablack.Session

open Lib List

variable {C : Crypto}

namespace SessionRatchet

section

variable {α : Type} {epoch : ℕ} {f : α → α} {l : List (ℕ × α)}

theorem map_of_notMem (h : epoch ∉ l.map Prod.fst) :
    l.map (fun e => if e.1 = epoch then (e.1, f e.2) else e) = l := by
  have hsame : ∀ e ∈ l, (if e.1 = epoch then (e.1, f e.2) else e) = e := by
    intro e he
    rw [if_neg]
    rintro rfl
    exact h (mem_map_of_mem he)
  rw [map_congr_left hsame, map_id']

theorem onFirst_eq_map (h : (l.map Prod.fst).Nodup) :
    onFirst epoch f l = l.map fun e => if e.1 = epoch then (e.1, f e.2) else e := by
  induction l with
  | nil => rfl
  | cons e l ih =>
      rw [map_cons, nodup_cons] at h
      rw [onFirst, map_cons]
      split
      · rename_i he
        rw [he] at h
        rw [map_of_notMem h.1]
      · rw [ih h.2]

theorem find?_of_mem {m : α} (h : (l.map Prod.fst).Nodup) (hm : (epoch, m) ∈ l) :
    l.find? (·.1 = epoch) = some (epoch, m) := by
  induction l with
  | nil => cases hm
  | cons e l ih =>
      rw [map_cons, nodup_cons] at h
      rcases mem_cons.mp hm with rfl | hl
      · exact find?_cons_of_pos (decide_eq_true rfl)
      · have hne : e.1 ≠ epoch := by
          intro he
          rw [he] at h
          exact h.1 (mem_map_of_mem (f := Prod.fst) hl)
        rw [find?_cons_of_neg (by simp [hne]), ih h.2 hl]

end

section

variable (r : SessionRatchet C) (epoch : ℕ) (direction : NonceDirection)

theorem map_fst_holding :
    (r.holding direction).map Prod.fst =
      r.preparedEpoch.toList ++ r.epoch :: r.retired.map (·.epoch) := by
  have hstanding : (r.standing direction).map Prod.fst = r.epoch :: r.retired.map (·.epoch) := by
    rw [standing, map_cons, map_map]
    rfl
  rw [holding, preparedEpoch]
  cases r.pending with
  | none => exact hstanding
  | some p =>
      dsimp only
      rw [map_cons, hstanding]
      rfl

theorem onRetired_of_notMem {epoch : ℕ} {f : RatchetEpoch C → RatchetEpoch C}
    {l : List (RatchetEpoch C)} (h : epoch ∉ l.map (·.epoch)) : onRetired epoch f l = l := by
  induction l with
  | nil => rfl
  | cons e l ih =>
      rw [map_cons, mem_cons, not_or] at h
      rw [onRetired, if_neg (Ne.symm h.1), ih h.2]

theorem commitOpen_of_notMem (h : epoch ∉ (r.holding direction).map Prod.fst)
    (plan : OpenPlan C.Key) : r.commitOpen epoch direction plan = r := by
  rw [map_fst_holding, mem_append, not_or, mem_cons, not_or, Option.mem_toList] at h
  obtain ⟨hprepared, hlive, hretired⟩ := h
  rw [commitOpen, pendingAt_eq_none.mpr hprepared]
  dsimp only
  rw [if_neg hlive, onRetired_of_notMem hretired]

end

/-! ### The numbers -/

/-- The epochs that are retired when `epoch` is live. -/
def graceWindow : ℕ → List ℕ
  | 0 => []
  | 1 => [0]
  | epoch + 2 => [epoch + 1, epoch]

theorem graceWindow_succ (epoch : ℕ) :
    graceWindow (epoch + 1) = (epoch :: graceWindow epoch).take ratchetRetainedEpochs := by
  match epoch with
  | 0 => rfl
  | 1 => rfl
  | _ + 2 => rfl

theorem length_graceWindow_le (epoch : ℕ) : (graceWindow epoch).length ≤ ratchetRetainedEpochs := by
  match epoch with
  | 0 => exact Nat.zero_le _
  | 1 => exact Nat.le_succ 1
  | _ + 2 => exact le_rfl

theorem lt_of_mem_graceWindow {epoch epoch' : ℕ} (h : epoch' ∈ graceWindow epoch) :
    epoch' < epoch := by
  rcases epoch with - | - | epoch <;> simp [graceWindow] at h <;> omega

theorem nodup_graceWindow (epoch : ℕ) : ((epoch + 1) :: epoch :: graceWindow epoch).Nodup := by
  match epoch with
  | 0 => decide
  | 1 => decide
  | epoch + 2 =>
      simp [graceWindow]
      omega

/-- The prepared epoch is the next one, the retired ones are the last ones. -/
structure Numbered (r : SessionRatchet C) : Prop where
  pending : ∀ p, r.pending = some p → p.epoch = r.epoch + 1
  retired : r.retired.map (·.epoch) = graceWindow r.epoch

variable {r : SessionRatchet C}

theorem numbered_new (masterKey : C.Key) : Numbered (new masterKey) where
  pending _ hp := nomatch hp
  retired := rfl

theorem Numbered.nodup (h : Numbered r) (direction : NonceDirection) :
    ((r.holding direction).map Prod.fst).Nodup := by
  have hall := nodup_graceWindow r.epoch
  rw [map_fst_holding, h.retired, preparedEpoch]
  cases hp : r.pending with
  | none => exact hall.tail
  | some p =>
      rw [Option.map_some, h.pending p hp]
      exact hall

theorem Numbered.retire (h : Numbered r) :
    r.retire.map (·.epoch) = graceWindow (r.epoch + 1) := by
  rw [SessionRatchet.retire, map_take, map_cons, h.retired, graceWindow_succ]

theorem Numbered.withPending (h : Numbered r) {pending : Option (PreparedEpoch C)}
    (hpending : ∀ p, pending = some p → p.epoch = r.epoch + 1) :
    Numbered { r with pending := pending } where
  pending := hpending
  retired := h.retired

theorem Numbered.installed (h : Numbered r) {r' : SessionRatchet C}
    (hepoch : r'.epoch = r.epoch + 1) (hretired : r'.retired = r.retire)
    (hpending : r'.pending = none) : Numbered r' where
  pending p hp := by
    rw [hpending] at hp
    cases hp
  retired := by
    rw [hretired, hepoch]
    exact h.retire

/-! ### Runs -/

inductive RatchetOp (C : Crypto) where
  | advanceSeal (direction : NonceDirection)
  | commitOpen (epoch : ℕ) (direction : NonceDirection) (plan : OpenPlan C.Key)
  | prepareStep (secrets : StepSecrets C) (peerDirection : NonceDirection)
  | prepareQuantumMix (quantumKey : C.Key) (peerDirection : NonceDirection)
  | activate (epoch : ℕ)
  | step (secrets : StepSecrets C)
  | mixQuantumEntropy (quantumKey : C.Key)

def run (r : SessionRatchet C) : RatchetOp C → SessionRatchet C
  | .advanceSeal direction => (r.advanceSeal direction).2.2
  | .commitOpen epoch direction plan => r.commitOpen epoch direction plan
  | .prepareStep secrets peerDirection => (r.prepareStep secrets peerDirection).2.2
  | .prepareQuantumMix quantumKey peerDirection =>
      (r.prepareQuantumMix quantumKey peerDirection).2.2
  | .activate epoch => (r.activate epoch).getD r
  | .step secrets => r.step secrets
  | .mixQuantumEntropy quantumKey => Written.mixQuantumEntropy r quantumKey

theorem Numbered.commitOpen (h : Numbered r) (epoch : ℕ) (direction : NonceDirection)
    (plan : OpenPlan C.Key) : Numbered (r.commitOpen epoch direction plan) := by
  have hretired : ∀ l : List (RatchetEpoch C),
      (onRetired epoch (·.onMsgChain (·.commit plan) direction) l).map (·.epoch) =
        l.map (·.epoch) := by
    intro l
    induction l with
    | nil => rfl
    | cons e l ih =>
        rw [onRetired]
        split
        · cases direction <;> rfl
        · rw [map_cons, ih, map_cons]
  cases hslot : r.pendingAt epoch with
  | some p =>
      obtain ⟨hp, -⟩ := pendingAt_eq_some.mp hslot
      rw [SessionRatchet.commitOpen, hslot]
      refine h.withPending fun p' hp' => ?_
      cases hp'
      rw [← h.pending p hp]
      cases direction <;> rfl
  | none =>
      rw [SessionRatchet.commitOpen, hslot]
      dsimp only
      split
      · cases direction <;> exact ⟨h.pending, h.retired⟩
      · exact ⟨h.pending, (hretired r.retired).trans h.retired⟩

theorem Numbered.run (h : Numbered r) (op : RatchetOp C) : Numbered (r.run op) := by
  cases op with
  | advanceSeal direction => cases direction <;> exact ⟨h.pending, h.retired⟩
  | commitOpen epoch direction plan => exact h.commitOpen epoch direction plan
  | prepareStep secrets peerDirection =>
      refine h.withPending fun p hp => ?_
      cases hp
      rfl
  | prepareQuantumMix quantumKey peerDirection =>
      refine h.withPending fun p hp => ?_
      cases hp
      rfl
  | activate epoch =>
      rw [SessionRatchet.run]
      rcases r.activate_cases epoch with ⟨hact, -⟩ | ⟨p, hp, -, hact⟩
      · rw [hact]
        exact h
      · rw [hact]
        exact h.installed (h.pending p hp) rfl rfl
  | step secrets => exact h.installed rfl rfl rfl
  | mixQuantumEntropy quantumKey => exact h.installed rfl rfl rfl

theorem Numbered.session {s : Session C} (h : Numbered s.ratchet) (op : SessionOp C) :
    Numbered (op.run s).ratchet := by
  rcases moved_run s op with rfl | ⟨epoch, direction, plan, rfl⟩ | hmoved
  · have hseal := h.run (.advanceSeal s.sealDirection)
    exact ⟨hseal.pending, hseal.retired⟩
  · exact h.commitOpen epoch direction plan
  · generalize (op.run s).ratchet = r' at hmoved
    cases hmoved with
    | activated hact =>
        rcases hact with rfl | ⟨p, hp, rfl⟩
        · exact h
        · exact h.installed (h.pending p hp) rfl rfl
    | prepare out =>
        refine h.withPending fun p hp => ?_
        cases hp
        rfl
    | install out => exact h.installed rfl rfl rfl

theorem Numbered.held {s : Session C} (h : Numbered s.ratchet) {epoch : ℕ}
    {direction : NonceDirection} {m : MsgChain C.Key}
    (hm : s.ratchet.chainAt epoch direction = some m) :
    epoch ≤ s.epoch ∨ s.preparedEpoch = some epoch := by
  rw [chainAt_eq_find?, Option.map_eq_some_iff] at hm
  obtain ⟨⟨epoch', m'⟩, hfound, rfl⟩ := hm
  obtain rfl : epoch' = epoch := of_decide_eq_true (find?_some hfound :)
  have hmem := mem_map_of_mem (f := Prod.fst) (mem_of_find?_eq_some hfound)
  rw [map_fst_holding, h.retired, mem_append, Option.mem_toList, mem_cons] at hmem
  rcases hmem with hprepared | rfl | hretired
  · exact Or.inr hprepared
  · exact Or.inl le_rfl
  · refine Or.inl ?_
    show epoch' ≤ s.ratchet.epoch
    exact (lt_of_mem_graceWindow hretired).le

theorem Numbered.held_run {s : Session C} (h : Numbered s.ratchet) (op : SessionOp C) {epoch : ℕ}
    (hprepared : s.preparedEpoch = some epoch) :
    epoch ≤ (op.run s).epoch ∨ (op.run s).preparedEpoch = some epoch := by
  obtain ⟨p, hp, rfl⟩ := Option.map_eq_some_iff.mp hprepared
  rcases moved_run s op with rfl | ⟨epoch', direction, plan, rfl⟩ | hmoved
  · refine Or.inr (Eq.trans ?_ hprepared)
    exact congrArg (Option.map _) (s.ratchet.advanceSeal_skeleton s.sealDirection).2
  · refine Or.inr (Eq.trans ?_ hprepared)
    have hskel := congrArg (Option.map Prod.fst)
      (s.ratchet.commitOpen_skeleton epoch' direction plan).2
    rwa [Option.map_map, Option.map_map] at hskel
  · show p.epoch ≤ (op.run s).ratchet.epoch ∨ (op.run s).ratchet.preparedEpoch = some p.epoch
    generalize (op.run s).ratchet = r' at hmoved
    cases hmoved with
    | activated hact =>
        rcases hact with rfl | ⟨p', hp', rfl⟩
        · exact Or.inr hprepared
        · cases hp.symm.trans hp'
          exact Or.inl le_rfl
    | prepare out => exact Or.inr (congrArg some (h.pending p hp).symm)
    | install out => exact Or.inl (h.pending p hp).le

/-- Whatever was done with a ratchet, the prepared epoch is the next one, at most two are retired,
the last one first, and an epoch that is held has one chain in each direction: it is planned on and
committed to, and no other is touched. A plan for another epoch is refused. -/
theorem one_chain_per_epoch (masterKey : C.Key) (ops : List (RatchetOp C)) :
    let r := ops.foldl run (new masterKey)
    (∀ p, r.pending = some p → p.epoch = r.epoch + 1) ∧
    r.retired.map (·.epoch) = graceWindow r.epoch ∧ r.retired.length ≤ ratchetRetainedEpochs ∧
    ∀ direction : NonceDirection,
      ((r.holding direction).map Prod.fst).Nodup ∧
      (∀ epoch m, (epoch, m) ∈ r.holding direction →
        (∀ counter, r.planOpen epoch direction counter = m.plan C.kdfCk counter) ∧
        ∀ plan,
          (r.commitOpen epoch direction plan).holding direction =
            (r.holding direction).map (fun e => if e.1 = epoch then (e.1, e.2.commit plan) else e) ∧
          ∀ direction', direction' ≠ direction →
            (r.commitOpen epoch direction plan).holding direction' = r.holding direction') ∧
      ∀ epoch, epoch ∉ (r.holding direction).map Prod.fst →
        (∀ counter, r.planOpen epoch direction counter = .refused) ∧
        ∀ plan, r.commitOpen epoch direction plan = r := by
  intro r
  have hinv : Numbered r :=
    foldl_invariant Numbered (fun _ op h => Numbered.run h op) (numbered_new masterKey) ops
  have hlength : r.retired.length ≤ ratchetRetainedEpochs := by
    rw [← length_map (·.epoch), hinv.retired]
    exact length_graceWindow_le r.epoch
  refine ⟨hinv.pending, hinv.retired, hlength, fun direction => ?_⟩
  have hnodup := hinv.nodup direction
  refine ⟨hnodup, fun epoch m hm => ⟨fun counter => ?_, fun plan => ⟨?_, ?_⟩⟩,
    fun epoch hnone => ⟨fun counter => ?_, r.commitOpen_of_notMem epoch direction hnone⟩⟩
  · rw [planOpen_eq, chainAt_eq_find?, find?_of_mem hnodup hm]
    rfl
  · rw [holding_commitOpen, onFirst_eq_map hnodup]
  · intro direction' hne
    exact r.holding_commitOpen_ne epoch direction hne plan
  · have hfind : (r.holding direction).find? (·.1 = epoch) = none := by
      rw [find?_eq_none]
      intro e he
      simp only [decide_eq_true_eq]
      rintro rfl
      exact hnone (mem_map_of_mem he)
    rw [planOpen_eq, chainAt_eq_find?, hfind]
    rfl

end SessionRatchet

end Vantablack.Session
