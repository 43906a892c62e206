import Vantablack.Session.Epochs

/-!
The message chains a session holds: for each direction one in the prepared epoch, one in the live
one and one in each retired epoch. An operation other than sealing and committing moves chains
from epoch to epoch or seeds new ones; it writes into none.
-/

namespace Vantablack.Session

variable {C : Crypto}

namespace SessionRatchet

/-- The chains of one direction in the live epoch and in the retired ones. -/
def standing (r : SessionRatchet C) (direction : NonceDirection) : List (ℕ × MsgChain C.Key) :=
  (r.epoch, r.msgChain direction) :: r.retired.map fun e => (e.epoch, e.msgChain direction)

/-- All chains of one direction with their epochs, in the order in which they are looked at. -/
def holding (r : SessionRatchet C) (direction : NonceDirection) : List (ℕ × MsgChain C.Key) :=
  match r.pending with
  | some p => (p.epoch, p.msgChain direction) :: r.standing direction
  | none => r.standing direction

/-- Change the first entry of an epoch. -/
def onFirst (epoch : ℕ) (f : α → α) : List (ℕ × α) → List (ℕ × α)
  | [] => []
  | e :: es => if e.1 = epoch then (e.1, f e.2) :: es else e :: onFirst epoch f es

/-- The chain of one direction of an epoch, where `plan_open` looks for it. -/
def chainAt (r : SessionRatchet C) (epoch : ℕ) (direction : NonceDirection) :
    Option (MsgChain C.Key) :=
  match r.pendingAt epoch with
  | some p => some (p.msgChain direction)
  | none =>
      if epoch = r.epoch then some (r.msgChain direction)
      else (r.retired.find? (·.epoch = epoch)).map (·.msgChain direction)

theorem planOpen_eq (r : SessionRatchet C) (epoch : ℕ) (direction : NonceDirection)
    (counter : ℕ) :
    r.planOpen epoch direction counter =
      (r.chainAt epoch direction).elim .refused (·.plan C.kdfCk counter) := by
  unfold planOpen chainAt
  cases r.pendingAt epoch with
  | some p => rfl
  | none =>
      by_cases he : epoch = r.epoch
      · simp only [he, if_true, Option.elim_some]
      · simp only [he, if_false]
        cases r.retired.find? (·.epoch = epoch) <;> rfl

theorem chainAt_eq_find? (r : SessionRatchet C) (epoch : ℕ) (direction : NonceDirection) :
    r.chainAt epoch direction = ((r.holding direction).find? (·.1 = epoch)).map Prod.snd := by
  have hstanding : ((r.standing direction).find? (·.1 = epoch)).map Prod.snd =
      if epoch = r.epoch then some (r.msgChain direction)
      else (r.retired.find? (·.epoch = epoch)).map (·.msgChain direction) := by
    rw [standing, List.find?_cons, List.find?_map]
    by_cases he : epoch = r.epoch
    · simp [he]
    · simp [he, Ne.symm he, Function.comp_def]
  rw [chainAt, holding, pendingAt]
  cases r.pending with
  | none => exact hstanding.symm
  | some p =>
      by_cases hp : p.epoch = epoch
      · simp [hp]
      · simp [hp, ← hstanding]

theorem chainAt_congr {r r' : SessionRatchet C} {epoch : ℕ} {direction : NonceDirection}
    (hpending : r'.pendingAt epoch = r.pendingAt epoch) (hepoch : r'.epoch = r.epoch)
    (hlive : r'.msgChain direction = r.msgChain direction)
    (hretired : (r'.retired.find? (·.epoch = epoch)).map (·.msgChain direction) =
      (r.retired.find? (·.epoch = epoch)).map (·.msgChain direction)) :
    r'.chainAt epoch direction = r.chainAt epoch direction := by
  rw [chainAt, chainAt, hpending, hepoch, hlive, hretired]

theorem pendingAt_of_le {r : SessionRatchet C}
    (hslot : ∀ p, r.pending = some p → p.epoch = r.epoch + 1) {epoch : ℕ} (h : epoch ≤ r.epoch) :
    r.pendingAt epoch = none := by
  rw [pendingAt_eq_none]
  intro hprepared
  obtain ⟨p, hp, hepoch⟩ := Option.map_eq_some_iff.mp hprepared
  have hnext := hslot p hp
  omega

theorem chainAt_live {r : SessionRatchet C}
    (hslot : ∀ p, r.pending = some p → p.epoch = r.epoch + 1) (direction : NonceDirection) :
    r.chainAt r.epoch direction = some (r.msgChain direction) := by
  rw [chainAt, pendingAt_of_le hslot le_rfl]
  exact if_pos rfl

theorem chainAt_pending {r : SessionRatchet C} {p : PreparedEpoch C} (hp : r.pending = some p)
    (direction : NonceDirection) : r.chainAt p.epoch direction = some (p.msgChain direction) := by
  rw [chainAt, pendingAt_eq_some.mpr ⟨hp, rfl⟩]

theorem chainAt_retired {r : SessionRatchet C} {epoch : ℕ} (hp : r.pendingAt epoch = none)
    (he : epoch ≠ r.epoch) (direction : NonceDirection) :
    r.chainAt epoch direction =
      (r.retired.find? (·.epoch = epoch)).map (·.msgChain direction) := by
  rw [chainAt, hp]
  exact if_neg he

variable {m : MsgChain C.Key}

theorem chainAt_install {r : SessionRatchet C}
    (hslot : ∀ p, r.pending = some p → p.epoch = r.epoch + 1) {p : PreparedEpoch C}
    (hp : p.epoch = r.epoch + 1) {r' : SessionRatchet C}
    (hr' : r'.pending = none ∧ r'.epoch = p.epoch ∧ r'.toResp = p.toResp ∧ r'.toInit = p.toInit ∧
      r'.retired = r.retire) {epoch : ℕ} {direction : NonceDirection}
    (h : r'.chainAt epoch direction = some m) :
    (epoch = p.epoch ∧ m = p.msgChain direction) ∨
      (epoch ≠ p.epoch ∧ r.chainAt epoch direction = some m) := by
  obtain ⟨hpending, hepoch, htoResp, htoInit, hretired⟩ := hr'
  have hnone : r'.pendingAt epoch = none := by
    rw [pendingAt, hpending]
  by_cases he : epoch = p.epoch
  · left
    refine ⟨he, ?_⟩
    rw [chainAt, hnone] at h
    simp only [hepoch, he, if_true, Option.some.injEq] at h
    rw [← h]
    cases direction
    · exact congrArg ChainState.msgChain htoResp
    · exact congrArg ChainState.msgChain htoInit
  · right
    refine ⟨he, ?_⟩
    rw [chainAt_retired hnone (by rwa [hepoch]), hretired] at h
    obtain ⟨e, hfound, rfl⟩ := Option.map_eq_some_iff.mp h
    have hall := (List.take_prefix _ _).find?_eq_some hfound
    rw [List.find?_cons] at hall
    split at hall
    · rename_i hlive
      cases hall
      rw [← of_decide_eq_true hlive]
      refine (chainAt_live hslot direction).trans ?_
      cases direction <;> rfl
    · rename_i hlive
      have hold : epoch ≠ r.epoch := fun h => of_decide_eq_false hlive h.symm
      have hunprepared : r.pendingAt epoch = none := by
        rw [pendingAt_eq_none]
        intro hprepared
        obtain ⟨p', hp', rfl⟩ := Option.map_eq_some_iff.mp hprepared
        exact he ((hslot p' hp').trans hp.symm)
      rw [chainAt_retired hunprepared hold, hall]
      rfl

/-! ### Sealing and committing -/

theorem chainAt_advanceSeal {r : SessionRatchet C} {epoch : ℕ} {direction : NonceDirection}
    (h : (r.advanceSeal direction).2.2.chainAt epoch direction = some m) :
    r.chainAt epoch direction = some m ∨
      (epoch = r.epoch ∧ m = ((r.msgChain direction).advance C.kdfCk).2) := by
  have hpending : (r.advanceSeal direction).2.2.pendingAt epoch = r.pendingAt epoch := by
    cases direction <;> rfl
  rw [chainAt, hpending] at h
  cases hp : r.pendingAt epoch with
  | some p =>
      rw [hp] at h
      rw [chainAt, hp]
      exact Or.inl h
  | none =>
      rw [hp] at h
      by_cases he : epoch = r.epoch
      · refine Or.inr ⟨he, ?_⟩
        cases direction <;> simpa [advanceSeal, onMsgChain, ChainState.onMsgChain, he, msgChain]
          using h.symm
      · rw [chainAt_retired hp he, ← h]
        cases direction <;> simp [advanceSeal, onMsgChain, he]

section

variable (r : SessionRatchet C) (epoch : ℕ) (direction : NonceDirection)

theorem map_onRetired (f : MsgChain C.Key → MsgChain C.Key) (l : List (RatchetEpoch C)) :
    (onRetired epoch (·.onMsgChain f direction) l).map (fun e => (e.epoch, e.msgChain direction)) =
      onFirst epoch f (l.map fun e => (e.epoch, e.msgChain direction)) := by
  induction l with
  | nil => rfl
  | cons e l ih =>
      rw [onRetired, List.map_cons, onFirst]
      split
      · cases direction <;> rfl
      · rw [List.map_cons, ih]

theorem holding_commitOpen (plan : OpenPlan C.Key) :
    (r.commitOpen epoch direction plan).holding direction =
      onFirst epoch (·.commit plan) (r.holding direction) := by
  cases hslot : r.pendingAt epoch with
  | some p =>
      obtain ⟨hp, he⟩ := pendingAt_eq_some.mp hslot
      rw [commitOpen, hslot, holding, holding, hp]
      dsimp only
      rw [onFirst, if_pos he]
      cases direction <;> rfl
  | none =>
      have hpending : (r.commitOpen epoch direction plan).pending = r.pending := by
        rw [commitOpen, hslot]
        dsimp only
        split
        · cases direction <;> rfl
        · rfl
      have hstanding : (r.commitOpen epoch direction plan).standing direction =
          onFirst epoch (·.commit plan) (r.standing direction) := by
        rw [commitOpen, hslot, standing, standing, onFirst]
        dsimp only
        by_cases he : epoch = r.epoch
        · rw [if_pos he, if_pos he.symm]
          cases direction <;> rfl
        · rw [if_neg he, if_neg (Ne.symm he), ← map_onRetired]
          cases direction <;> rfl
      rw [holding, holding, hpending, hstanding]
      cases hp : r.pending with
      | none => rfl
      | some p =>
          have he : p.epoch ≠ epoch := by
            intro he
            rw [pendingAt_eq_some.mpr ⟨hp, he⟩] at hslot
            cases hslot
          rw [onFirst, if_neg he]

theorem holding_commitOpen_ne {direction' : NonceDirection} (h : direction' ≠ direction)
    (plan : OpenPlan C.Key) :
    (r.commitOpen epoch direction plan).holding direction' = r.holding direction' := by
  have hretired : ∀ l : List (RatchetEpoch C),
      (onRetired epoch (·.onMsgChain (·.commit plan) direction) l).map
        (fun e => (e.epoch, e.msgChain direction')) =
          l.map fun e => (e.epoch, e.msgChain direction') := by
    intro l
    induction l with
    | nil => rfl
    | cons e l ih =>
        rw [onRetired]
        split
        · cases direction <;> cases direction' <;> first | rfl | exact absurd rfl h
        · rw [List.map_cons, ih, List.map_cons]
  cases hslot : r.pendingAt epoch with
  | some p =>
      rw [commitOpen, hslot, holding, holding, (pendingAt_eq_some.mp hslot).1]
      cases direction <;> cases direction' <;> first | rfl | exact absurd rfl h
  | none =>
      rw [commitOpen, hslot]
      dsimp only
      split
      · cases direction <;> cases direction' <;> first | rfl | exact absurd rfl h
      · rw [holding, holding, standing, standing, hretired]
        cases direction' <;> rfl

theorem find?_onFirst {α : Type} {epoch epoch' : ℕ} {f : α → α} (l : List (ℕ × α)) :
    ((onFirst epoch f l).find? (·.1 = epoch')).map Prod.snd =
      ((l.find? (·.1 = epoch')).map Prod.snd).map fun m => if epoch' = epoch then f m else m := by
  induction l with
  | nil => rfl
  | cons e l ih =>
      rw [onFirst]
      by_cases he : e.1 = epoch
      · rw [if_pos he]
        by_cases he' : e.1 = epoch'
        · simp [← he, ← he']
        · have hne : epoch' ≠ epoch := fun hsame => he' (he.trans hsame.symm)
          simp [he', hne, Function.comp_def]
      · rw [if_neg he]
        by_cases he' : e.1 = epoch'
        · have hne : epoch' ≠ epoch := fun hsame => he (he'.trans hsame)
          simp [he', hne]
        · rw [List.find?_cons_of_neg (by simpa using he'),
            List.find?_cons_of_neg (by simpa using he'), ih]

/-- A commit changes the one chain it is for. -/
theorem chainAt_commitOpen_self (plan : OpenPlan C.Key) (epoch' : ℕ) :
    (r.commitOpen epoch direction plan).chainAt epoch' direction =
      (r.chainAt epoch' direction).map fun m => if epoch' = epoch then m.commit plan else m := by
  rw [chainAt_eq_find?, chainAt_eq_find?, holding_commitOpen, find?_onFirst]

end

variable {other : NonceDirection}

theorem chainAt_commitOpen_ne (r : SessionRatchet C) (epoch : ℕ) {direction : NonceDirection}
    (h : other ≠ direction) (plan : OpenPlan C.Key) (epoch' : ℕ) :
    (r.commitOpen epoch direction plan).chainAt epoch' other = r.chainAt epoch' other := by
  rw [chainAt_eq_find?, chainAt_eq_find?, holding_commitOpen_ne r epoch direction h]

theorem chainAt_commitOpen {r : SessionRatchet C} {epoch : ℕ} {direction : NonceDirection}
    {plan : OpenPlan C.Key} {epoch' : ℕ}
    (h : (r.commitOpen epoch direction plan).chainAt epoch' other = some m) :
    ∃ old, r.chainAt epoch' other = some old ∧ old.pos ≤ m.pos := by
  by_cases hne : other = direction
  · subst hne
    rw [chainAt_commitOpen_self, Option.map_eq_some_iff] at h
    obtain ⟨old, hold, rfl⟩ := h
    refine ⟨old, hold, ?_⟩
    split
    · exact MsgChain.pos_le_commit old plan
    · exact le_rfl
  · rw [chainAt_commitOpen_ne r epoch hne] at h
    exact ⟨m, h, le_rfl⟩

theorem chainAt_advanceSeal_ne (r : SessionRatchet C) {direction : NonceDirection}
    (h : other ≠ direction) (epoch : ℕ) :
    (r.advanceSeal direction).2.2.chainAt epoch other = r.chainAt epoch other := by
  cases direction <;> cases other <;>
    first | exact absurd rfl h | exact chainAt_congr rfl rfl rfl rfl

end SessionRatchet

/-- The ratchet is as it was, or with the prepared epoch installed. -/
def Activated (r r' : SessionRatchet C) : Prop :=
  r' = r ∨ ∃ p, r.pending = some p ∧ r' = { r.install p with steps := r.steps + 1 }

variable (s : Session C)

theorem activated_activateEpoch (now epoch : ℕ) :
    Activated s.ratchet (s.activateEpoch now epoch).2.ratchet := by
  rcases s.ratchet.activate_cases epoch with ⟨hact, _⟩ | ⟨p, hp, _, hact⟩
  · simp only [activateEpoch, hact]
    exact Or.inl rfl
  · simp only [activateEpoch, hact]
    split <;> exact Or.inr ⟨p, hp, rfl⟩

variable {m : MsgChain C.Key}

theorem Activated.chainAt {r r' : SessionRatchet C} (h : Activated r r')
    (hslot : ∀ p, r.pending = some p → p.epoch = r.epoch + 1) {epoch : ℕ}
    {direction : NonceDirection} (hm : r'.chainAt epoch direction = some m) :
    r.chainAt epoch direction = some m := by
  rcases h with rfl | ⟨p, hp, rfl⟩
  · exact hm
  · rcases SessionRatchet.chainAt_install hslot (hslot p hp) ⟨rfl, rfl, rfl, rfl, rfl⟩ hm with
      ⟨rfl, rfl⟩ | ⟨-, hold⟩
    · exact SessionRatchet.chainAt_pending hp direction
    · exact hold

/-- What an operation that neither seals nor commits does to a ratchet. -/
inductive Moved (r : SessionRatchet C) : SessionRatchet C → Prop
  | activated {r' : SessionRatchet C} (h : Activated r r') : Moved r r'
  | prepare (out : C.Key × C.Key × C.Key) :
      Moved r { r with pending := some (.ofRoot (r.epoch + 1) out) }
  | install (out : C.Key × C.Key × C.Key) :
      Moved r { r.install (.ofRoot (r.epoch + 1) out) with steps := r.steps + 1 }

theorem Moved.same {r : SessionRatchet C} : Moved r r := .activated (Or.inl rfl)

theorem activateEpoch_ends (now epoch : ℕ) :
    (s.activateEpoch now epoch).2.role = s.role ∧
      (s.activateEpoch now epoch).2.sessionHash = s.sessionHash := by
  unfold activateEpoch
  split
  · exact ⟨rfl, rfl⟩
  · dsimp only
    split <;> exact ⟨rfl, rfl⟩

variable (op : SessionOp C)

theorem run_ends : (op.run s).role = s.role ∧ (op.run s).sessionHash = s.sessionHash := by
  cases op with
  | activateEpoch now epoch => exact activateEpoch_ends s now epoch
  | finishQuantumMix now epoch confirm =>
      have hact := activateEpoch_ends s now epoch
      simp only [SessionOp.run, finishQuantumMix]
      repeat' split
      all_goals first | exact ⟨rfl, rfl⟩ | simp_all [abandonQuantumMix]
  | sealMessage | commitOpen | checkInbound | applyRatchetStep | abandonRatchetStep
  | abandonQuantumMix => exact ⟨rfl, rfl⟩
  | triggerForcedRatchetStep | beginRatchetStep | answerRatchetStep | finishRatchetStep
  | admitPeerStep | beginQuantumMix | answerQuantumMix | admitPeerQuantumMix =>
      simp only [SessionOp.run, triggerForcedRatchetStep, beginRatchetStep, answerRatchetStep,
        finishRatchetStep, admitPeerStep, beginQuantumMix, answerQuantumMix, admitPeerQuantumMix]
      repeat' split
      all_goals exact ⟨rfl, rfl⟩

@[simp] theorem run_role : (op.run s).role = s.role :=
  (run_ends s op).1

@[simp] theorem run_sessionHash : (op.run s).sessionHash = s.sessionHash :=
  (run_ends s op).2

theorem run_sealDirection : (op.run s).sealDirection = s.sealDirection :=
  congrArg SessionRole.sealDirection (run_role s op)

theorem activated_run {op : SessionOp C} (hseeds : op.seeds = false) :
    op = .sealMessage ∨ (∃ epoch direction plan, op = .commitOpen epoch direction plan) ∨
      Activated s.ratchet (op.run s).ratchet := by
  cases op with
  | sealMessage => exact Or.inl rfl
  | commitOpen epoch direction plan => exact Or.inr (Or.inl ⟨epoch, direction, plan, rfl⟩)
  | activateEpoch now epoch => exact Or.inr (Or.inr (activated_activateEpoch s now epoch))
  | finishQuantumMix now epoch confirm =>
      have hact := activated_activateEpoch s now epoch
      refine Or.inr (Or.inr ?_)
      simp only [SessionOp.run, finishQuantumMix]
      split
      · exact Or.inl rfl
      split
      · exact Or.inl rfl
      split
      · exact Or.inl rfl
      split
      · rename_i heq
        rwa [heq] at hact
      · rename_i heq
        rwa [heq] at hact
  | checkInbound | abandonRatchetStep | abandonQuantumMix => exact Or.inr (Or.inr (Or.inl rfl))
  | triggerForcedRatchetStep | beginRatchetStep | admitPeerStep | admitPeerQuantumMix =>
      refine Or.inr (Or.inr ?_)
      simp only [SessionOp.run, triggerForcedRatchetStep, beginRatchetStep, admitPeerStep,
        admitPeerQuantumMix]
      repeat' split
      all_goals exact Or.inl rfl
  | _ => cases hseeds

theorem moved_run :
    op = .sealMessage ∨ (∃ epoch direction plan, op = .commitOpen epoch direction plan) ∨
      Moved s.ratchet (op.run s).ratchet := by
  by_cases hseeds : op.seeds = false
  · exact (activated_run s hseeds).imp_right (Or.imp_right .activated)
  refine Or.inr (Or.inr ?_)
  cases op with
  | applyRatchetStep now secrets => exact .install _
  | answerRatchetStep step coins peerX peerKemPub =>
      simp only [SessionOp.run, answerRatchetStep]
      split
      · exact .same
      · exact .prepare _
  | finishRatchetStep now answer =>
      simp only [SessionOp.run, finishRatchetStep]
      repeat' split
      all_goals first | exact .same | exact .install _
  | beginQuantumMix now quantumKey label =>
      simp only [SessionOp.run, beginQuantumMix]
      repeat' split
      all_goals first | exact .same | exact .prepare _
  | answerQuantumMix now quantumKey peerEpoch peerConfirm label =>
      simp only [SessionOp.run, answerQuantumMix]
      repeat' split
      all_goals first | exact .same | exact .prepare _
  | _ => exact absurd rfl hseeds

theorem Moved.chainAt {r r' : SessionRatchet C} (h : Moved r r')
    (hslot : ∀ p, r.pending = some p → p.epoch = r.epoch + 1) {epoch : ℕ}
    {direction : NonceDirection} (hm : r'.chainAt epoch direction = some m) :
    r.chainAt epoch direction = some m ∨ (r.epoch < epoch ∧ ∃ key, m = .seed key) := by
  have hfresh : ∀ out : C.Key × C.Key × C.Key,
      ∃ key, (PreparedEpoch.ofRoot (r.epoch + 1) out).msgChain direction = .seed key := by
    intro out
    cases direction <;> exact ⟨_, rfl⟩
  cases h with
  | activated h => exact Or.inl (h.chainAt hslot hm)
  | prepare out =>
      by_cases he : epoch = r.epoch + 1
      · have hnew := SessionRatchet.chainAt_pending
          (r := { r with pending := some (.ofRoot (r.epoch + 1) out) }) rfl direction
        have hm' : some ((PreparedEpoch.ofRoot (r.epoch + 1) out).msgChain direction) = some m := by
          rw [← hm, he]
          exact hnew.symm
        cases hm'
        exact Or.inr ⟨by omega, hfresh out⟩
      · left
        have hnone : r.pendingAt epoch = none := by
          rw [SessionRatchet.pendingAt_eq_none]
          intro hprepared
          obtain ⟨p, hp, rfl⟩ := Option.map_eq_some_iff.mp hprepared
          exact he (hslot p hp)
        have hnone' : SessionRatchet.pendingAt
            { r with pending := some (.ofRoot (r.epoch + 1) out) } epoch = none :=
          if_neg (Ne.symm he)
        rw [← hm]
        exact (SessionRatchet.chainAt_congr (hnone'.trans hnone.symm) rfl
          (by cases direction <;> rfl) rfl).symm
  | install out =>
      rcases SessionRatchet.chainAt_install hslot rfl ⟨rfl, rfl, rfl, rfl, rfl⟩ hm with
        ⟨rfl, rfl⟩ | ⟨-, hold⟩
      · exact Or.inr ⟨Nat.lt_succ_self _, hfresh out⟩
      · exact Or.inl hold

/-- A chain of the direction that the session does not seal in is as it was, unless it is a new
one. -/
theorem chainAt_run {s : Session C} (hslot : SlotNext s) {op : SessionOp C}
    (hop : ∀ epoch direction plan, op ≠ .commitOpen epoch direction plan)
    {direction : NonceDirection} (hne : direction ≠ s.sealDirection) {epoch : ℕ}
    (hm : (op.run s).ratchet.chainAt epoch direction = some m) :
    s.ratchet.chainAt epoch direction = some m ∨
      op.seeds = true ∧ s.epoch < epoch ∧ ∃ key, m = .seed key := by
  by_cases hseeds : op.seeds = false
  · rcases activated_run s hseeds with rfl | ⟨_, _, _, hcommit⟩ | hact
    · exact Or.inl ((SessionRatchet.chainAt_advanceSeal_ne s.ratchet hne epoch).symm.trans hm)
    · exact absurd hcommit (hop _ _ _)
    · exact Or.inl (hact.chainAt hslot hm)
  · rcases moved_run s op with rfl | ⟨_, _, _, hcommit⟩ | hmoved
    · exact absurd rfl hseeds
    · exact absurd hcommit (hop _ _ _)
    · exact (hmoved.chainAt hslot hm).imp_right fun h => ⟨Bool.of_not_eq_false hseeds, h⟩

/-! ### What a session has sealed -/

/-- The sealing chains are past every message in `sent`, a set of epochs and counters. -/
structure Passed (s : Session C) (sent : Set (ℕ × ℕ)) : Prop where
  slot : SlotNext s
  passed : ∀ epoch counter, (epoch, counter) ∈ sent → epoch ≤ s.epoch ∧
    ∀ m, s.ratchet.chainAt epoch s.sealDirection = some m → counter < m.pos

theorem passed_newWithRole (masterKey : C.Key) (peer : String) (role : SessionRole) (now : ℕ) :
    Passed (newWithRole masterKey peer role now) ∅ where
  slot := slotNext_newWithRole masterKey peer role now
  passed _ _ h := absurd h (Set.notMem_empty _)

theorem epoch_le_run {s : Session C} (h : SlotNext s) (op : SessionOp C) :
    s.epoch ≤ (op.run s).epoch := by
  cases epochMove_run h op with
  | stay hepoch => exact hepoch.ge
  | advance hepoch => omega

variable {sent : Set (ℕ × ℕ)}

theorem Passed.of_chains {s s' : Session C} (h : Passed s sent) (hslot : SlotNext s')
    (hdirection : s'.sealDirection = s.sealDirection) (hepoch : s.epoch ≤ s'.epoch)
    (hchains : ∀ epoch m, s'.ratchet.chainAt epoch s.sealDirection = some m →
      (∃ old, s.ratchet.chainAt epoch s.sealDirection = some old ∧ old.pos ≤ m.pos) ∨
        s.epoch < epoch) : Passed s' sent where
  slot := hslot
  passed epoch counter hsent := by
    obtain ⟨hle, hpos⟩ := h.passed epoch counter hsent
    refine ⟨hle.trans hepoch, ?_⟩
    intro m hm
    rw [hdirection] at hm
    rcases hchains epoch m hm with ⟨old, hold, hfurther⟩ | hlt
    · exact (hpos old hold).trans_le hfurther
    · exact absurd hlt (not_lt.mpr hle)

theorem Passed.run {s : Session C} (h : Passed s sent) (op : SessionOp C) :
    Passed (op.run s) sent := by
  refine h.of_chains (h.slot.run op) (run_sealDirection s op) (epoch_le_run h.slot op) ?_
  intro epoch m hm
  rcases moved_run s op with rfl | ⟨epoch', direction, plan, rfl⟩ | hmoved
  · rcases SessionRatchet.chainAt_advanceSeal hm with hold | ⟨rfl, rfl⟩
    · exact Or.inl ⟨m, hold, le_rfl⟩
    · exact Or.inl ⟨_, SessionRatchet.chainAt_live h.slot s.sealDirection, Nat.le_succ _⟩
  · exact Or.inl (SessionRatchet.chainAt_commitOpen hm)
  · rcases hmoved.chainAt h.slot hm with hold | ⟨hlt, -⟩
    · exact Or.inl ⟨m, hold, le_rfl⟩
    · exact Or.inr hlt

theorem Passed.fresh {s : Session C} (h : Passed s sent) :
    (s.epoch, s.sealMaterial.1.counter) ∉ sent := by
  intro hsent
  have hlt := (h.passed _ _ hsent).2 _ (SessionRatchet.chainAt_live h.slot s.sealDirection)
  exact lt_irrefl _ hlt

theorem Passed.seal {s : Session C} (h : Passed s sent) :
    Passed s.sealMaterial.2 (insert (s.epoch, s.sealMaterial.1.counter) sent) where
  slot := h.slot.run .sealMessage
  passed epoch counter hsent := by
    rcases hsent with hnew | hsent
    · obtain ⟨rfl, rfl⟩ := Prod.mk.inj hnew
      have hepoch : s.sealMaterial.2.epoch = s.epoch :=
        congrArg Prod.fst (s.ratchet.advanceSeal_skeleton s.sealDirection).1
      refine ⟨hepoch.ge, ?_⟩
      intro m hm
      have hadvanced : s.sealMaterial.2.ratchet.msgChain s.sealDirection =
          ((s.ratchet.msgChain s.sealDirection).advance C.kdfCk).2 := by
        show ((s.ratchet.advanceSeal s.sealDirection).2.2).msgChain s.sealDirection = _
        cases s.sealDirection <;> rfl
      have hlive := SessionRatchet.chainAt_live (h.slot.run .sealMessage) s.sealDirection
      rw [show (SessionOp.sealMessage.run s).ratchet.epoch = s.epoch from hepoch] at hlive
      obtain rfl := Option.some.inj (hm.symm.trans hlive)
      rw [show (SessionOp.sealMessage.run s).ratchet.msgChain s.sealDirection = _ from hadvanced]
      exact Nat.lt_succ_self _
    · exact (h.run .sealMessage).passed epoch counter hsent

end Vantablack.Session
