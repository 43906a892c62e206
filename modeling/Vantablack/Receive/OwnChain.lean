import Vantablack.Receive.Replay

/-!
Who writes a session's own sealing chains. Sealing does. The receive path tries the peer's
direction first and then falls through to the session's own, and for a ShardSec message it commits
whatever plan it finds there.
-/

namespace Vantablack.Receive

open Session

variable {C : Crypto} {ι : Type} [DecidableEq ι]

/-- Every own chain held afterwards was held before, with the same position, key and skipped
keys. -/
def OwnChainsKept (s s' : Session C) : Prop :=
  ∀ epoch m, s'.ratchet.chainAt epoch s.sealDirection = some m →
    s.ratchet.chainAt epoch s.sealDirection = some m

theorem OwnChainsKept.refl (s : Session C) : OwnChainsKept s s := fun _ _ h => h

/-! ### A session that only sealing has written -/

/-- The own chains have skipped nothing and are past every message in `sent`, a set of epochs and
counters. -/
structure SealOnly (s : Session C) (sent : Set (ℕ × ℕ)) : Prop where
  slot : SlotNext s
  noneSkipped : ∀ epoch m, s.ratchet.chainAt epoch s.sealDirection = some m →
    ∀ counter : ℕ, m.skipped[counter]? = none
  passed : ∀ epoch counter, (epoch, counter) ∈ sent → epoch ≤ s.epoch ∧
    ∀ m, s.ratchet.chainAt epoch s.sealDirection = some m → counter < m.pos

variable {s : Session C} {sent : Set (ℕ × ℕ)}

theorem SealOnly.toPassed (h : SealOnly s sent) : Passed s sent where
  slot := h.slot
  passed := h.passed

theorem sealOnly_newWithRole (masterKey : C.Key) (peer : String) (role : SessionRole) (now : ℕ) :
    SealOnly (newWithRole masterKey peer role now) ∅ where
  slot := slotNext_newWithRole masterKey peer role now
  noneSkipped epoch m hm counter := by
    have hseed : ∃ key, m = .seed key := by
      by_cases he : epoch = 0
      · subst he
        cases role <;> exact ⟨_, (Option.some.inj hm).symm⟩
      · rw [SessionRatchet.chainAt_retired rfl he] at hm
        cases hm
    obtain ⟨key, rfl⟩ := hseed
    simp [MsgChain.seed]
  passed epoch counter h := absurd h (Set.notMem_empty _)

theorem SealOnly.refused (h : SealOnly s sent) {epoch counter : ℕ}
    (hsent : (epoch, counter) ∈ sent) : s.planOpen epoch s.sealDirection counter = .refused := by
  rw [Session.planOpen, SessionRatchet.planOpen_eq]
  cases hm : s.ratchet.chainAt epoch s.sealDirection with
  | none => rfl
  | some m =>
      exact MsgChain.plan_refused C.kdfCk ((h.passed epoch counter hsent).2 m hm)
        (h.noneSkipped epoch m hm counter)

theorem SealOnly.of_chains {s' : Session C} (h : SealOnly s sent) (hslot : SlotNext s')
    (hdirection : s'.sealDirection = s.sealDirection) (hepoch : s.epoch ≤ s'.epoch)
    (hchains : ∀ epoch m, s'.ratchet.chainAt epoch s.sealDirection = some m →
      s.ratchet.chainAt epoch s.sealDirection = some m ∨
        (s.epoch < epoch ∧ ∃ key, m = .seed key)) : SealOnly s' sent where
  slot := hslot
  noneSkipped epoch m hm counter := by
    rw [hdirection] at hm
    rcases hchains epoch m hm with hold | ⟨-, key, rfl⟩
    · exact h.noneSkipped epoch m hold counter
    · simp [MsgChain.seed]
  passed := by
    refine (h.toPassed.of_chains hslot hdirection hepoch ?_).passed
    intro epoch m hm
    rcases hchains epoch m hm with hold | ⟨hlt, -⟩
    · exact Or.inl ⟨m, hold, le_rfl⟩
    · exact Or.inr hlt

theorem SealOnly.moved (h : SealOnly s sent) {op : SessionOp C}
    (hop : Moved s.ratchet (op.run s).ratchet) : SealOnly (op.run s) sent :=
  h.of_chains (h.slot.run op) (run_sealDirection s op) (epoch_le_run h.slot op)
    fun _ _ hm => hop.chainAt h.slot hm

theorem SealOnly.commit (h : SealOnly s sent) (epoch : ℕ) {direction : NonceDirection}
    (hne : s.sealDirection ≠ direction) (plan : OpenPlan C.Key) :
    SealOnly (s.commitOpen epoch direction plan) sent :=
  h.of_chains (h.slot.run (.commitOpen epoch direction plan)) rfl
    (epoch_le_run h.slot (.commitOpen epoch direction plan)) fun epoch' m hm => by
      left
      rwa [Session.commitOpen, SessionRatchet.chainAt_commitOpen_ne _ _ hne] at hm

theorem SealOnly.seal (h : SealOnly s sent) :
    SealOnly s.sealMaterial.2 (insert (s.epoch, s.sealMaterial.1.counter) sent) where
  slot := h.slot.run .sealMessage
  noneSkipped epoch m hm counter := by
    rcases SessionRatchet.chainAt_advanceSeal hm with hold | ⟨-, rfl⟩
    · exact h.noneSkipped epoch m hold counter
    · exact h.noneSkipped s.epoch _ (SessionRatchet.chainAt_live h.slot s.sealDirection) counter
  passed := h.toPassed.seal.passed

omit [DecidableEq ι] in
theorem next_op {t : Task C ι} {now : ℕ} {stage : Stage C} {op : SessionOp C}
    (h : t.next s now = some (stage, some op)) :
    (∃ direction plan, op = .commitOpen t.msg.epoch direction plan ∧
      (t.stage = .commit direction plan ∨ t.stage = .resync direction plan)) ∨
    Activated s.ratchet (op.run s).ratchet := by
  cases hstage : t.stage with
  | planPeer | planOurs | resyncPeer | resyncOurs =>
      simp only [Task.next, hstage] at h
      split at h <;> cases h
  | commit direction plan =>
      simp only [Task.next, hstage] at h
      cases h
      exact Or.inl ⟨direction, plan, rfl, Or.inl rfl⟩
  | resync direction plan =>
      simp only [Task.next, hstage] at h
      cases h
      exact Or.inl ⟨direction, plan, rfl, Or.inr rfl⟩
  | opened =>
      simp only [Task.next, hstage] at h
      split at h
      · cases h
      · split at h
        · cases h
          exact Or.inr (activated_activateEpoch s now t.msg.epoch)
        · cases h
  | replay =>
      simp only [Task.next, hstage] at h
      split at h <;> cases h
  | window =>
      simp only [Task.next, hstage] at h
      split at h <;> cases h <;> exact Or.inr (Or.inl rfl)
  | dispatched | dropped =>
      simp only [Task.next, hstage] at h
      cases h

omit [DecidableEq ι] in
theorem next_plan {t : Task C ι} {now : ℕ} {stage : Stage C} {op : Option (SessionOp C)}
    (h : t.next s now = some (stage, op)) {direction : NonceDirection} {plan : OpenPlan C.Key}
    (hplan : stage = .commit direction plan ∨ stage = .resync direction plan) :
    direction = s.sealDirection.peerDirection ∨
      (t.msg.direction = s.sealDirection ∧
        (s.planOpen t.msg.epoch s.sealDirection t.msg.counter).key?.isSome = true) ∨
      (t.stage = .resyncOurs ∧
        (s.planOpen t.msg.epoch s.sealDirection t.msg.counter).key?.isSome = true) := by
  cases hstage : t.stage with
  | planPeer | resyncPeer =>
      simp only [Task.next, hstage] at h
      split at h
      · cases h
        rcases hplan with hplan | hplan <;> cases hplan
        exact Or.inl rfl
      · cases h
        rcases hplan with hplan | hplan <;> cases hplan
  | planOurs =>
      simp only [Task.next, hstage] at h
      split at h
      · rename_i hfits
        refine Or.inr (Or.inl ⟨hfits.2.symm, ?_⟩)
        rw [hfits.1]
        rfl
      · cases h
        rcases hplan with hplan | hplan <;> cases hplan
  | resyncOurs =>
      simp only [Task.next, hstage] at h
      split at h
      · rename_i hfound
        exact Or.inr (Or.inr ⟨rfl, hfound⟩)
      · cases h
        rcases hplan with hplan | hplan <;> cases hplan
  | commit | resync =>
      simp only [Task.next, hstage] at h
      cases h
      rcases hplan with hplan | hplan <;> cases hplan
  | opened | replay | window =>
      simp only [Task.next, hstage] at h
      repeat' split at h
      all_goals
        cases h
        rcases hplan with hplan | hplan <;> cases hplan
  | dispatched | dropped =>
      simp only [Task.next, hstage] at h
      cases h

/-! ### The node -/

/-- A receiver, and what its sessions have sealed: session, epoch and counter. -/
structure Node (C : Crypto) (ι : Type) where
  receiver : Receiver C ι
  sent : List (ι × ℕ × ℕ)

/-- The receive path, as opposed to what the rest of the node does with a session. -/
def ReceiverAct.isReceive : ReceiverAct C ι → Bool
  | .op .. => false
  | _ => true

namespace Node

def start (masterKey : ι → C.Key) (peer : ι → String) (role : ι → SessionRole) (now : ι → ℕ) :
    Node C ι :=
  { receiver := .start masterKey peer role now, sent := [] }

/-- Only the receive path commits plans. -/
def step (w : Node C ι) (act : ReceiverAct C ι) : Option (Node C ι) :=
  match act with
  | .op _ (.commitOpen ..) => none
  | .op i .sealMessage =>
      let s := w.receiver.sessions i
      (w.receiver.step act).map fun receiver =>
        { receiver := receiver, sent := (i, s.epoch, s.sealMaterial.1.counter) :: w.sent }
  | act => (w.receiver.step act).map fun receiver => { w with receiver := receiver }

/-- The cipher: a message that arrives sealed in a session's own direction is one that this
session sealed. -/
def authentic (w : Node C ι) : ReceiverAct C ι → Bool
  | .arrive i msg | .ingest i msg _ =>
      msg.direction ≠ (w.receiver.sessions i).sealDirection ||
        (i, msg.epoch, msg.counter) ∈ w.sent
  | _ => true

/-- A ShardSec message that has no plan in the peer's direction has none in ours. -/
def ownPlanRefused (w : Node C ι) : ReceiverAct C ι → Bool
  | .run k _ =>
      match w.receiver.tasks[k]? with
      | some { session := i, msg := msg, stage := .resyncOurs } =>
          let s := w.receiver.sessions i
          (s.planOpen msg.epoch s.sealDirection msg.counter).key?.isNone
      | _ => true
  | _ => true

def sentBy (sent : List (ι × ℕ × ℕ)) (i : ι) : Set (ℕ × ℕ) := { e | (i, e) ∈ sent }

omit [DecidableEq ι] in
@[simp] theorem sentBy_cons_self (i : ι) (e : ℕ × ℕ) (sent : List (ι × ℕ × ℕ)) :
    sentBy ((i, e) :: sent) i = insert e (sentBy sent i) := by
  ext e'
  simp [sentBy]

omit [DecidableEq ι] in
@[simp] theorem sentBy_cons_ne {i j : ι} (h : j ≠ i) (e : ℕ × ℕ) (sent : List (ι × ℕ × ℕ)) :
    sentBy ((i, e) :: sent) j = sentBy sent j := by
  ext e'
  simp [sentBy, h]

/-- A task has committed to no plan of its session's own direction, and a message it has of that
direction was sealed here. -/
structure TaskOk (w : Node C ι) (t : Task C ι) : Prop where
  reflected : t.msg.direction = (w.receiver.sessions t.session).sealDirection →
    (t.session, t.msg.epoch, t.msg.counter) ∈ w.sent
  peers : ∀ direction plan, t.stage = .commit direction plan ∨ t.stage = .resync direction plan →
    direction = (w.receiver.sessions t.session).sealDirection.peerDirection

structure Inv (w : Node C ι) : Prop where
  sealOnly : ∀ i, SealOnly (w.receiver.sessions i) (sentBy w.sent i)
  tasks : ∀ t ∈ w.receiver.tasks, w.TaskOk t

omit [DecidableEq ι] in
theorem inv_start (masterKey : ι → C.Key) (peer : ι → String) (role : ι → SessionRole)
    (now : ι → ℕ) : Inv (start masterKey peer role now) where
  sealOnly i := by
    have hsent : sentBy (start masterKey peer role now).sent i = ∅ := by
      ext e
      simp [sentBy, start]
    rw [hsent]
    exact sealOnly_newWithRole (masterKey i) (peer i) (role i) (now i)
  tasks t ht := absurd ht List.not_mem_nil

variable {w : Node C ι} {t : Task C ι}

omit [DecidableEq ι] in
theorem TaskOk.of_le {w' : Node C ι} (h : w.TaskOk t)
    (hdirection : ∀ i, (w'.receiver.sessions i).sealDirection = (w.receiver.sessions i).sealDirection)
    (hsent : w.sent ⊆ w'.sent) : w'.TaskOk t where
  reflected hours := by
    rw [hdirection] at hours
    exact hsent (h.reflected hours)
  peers direction plan hplan := by
    rw [hdirection]
    exact h.peers direction plan hplan

theorem Inv.write (h : Inv w) {i : ι} {s : Session C} {sent : List (ι × ℕ × ℕ)}
    (hs : SealOnly s (sentBy sent i))
    (hdirection : s.sealDirection = (w.receiver.sessions i).sealDirection)
    (hothers : ∀ j, j ≠ i → sentBy sent j = sentBy w.sent j) (hsent : w.sent ⊆ sent) :
    Inv { receiver := w.receiver.setSession i s, sent := sent } := by
  refine ⟨?_, ?_⟩
  · intro j
    by_cases hj : j = i
    · subst hj
      simpa [Receiver.setSession] using hs
    · simpa [Receiver.setSession, hj, hothers j hj] using h.sealOnly j
  · intro t ht
    refine (h.tasks t ht).of_le ?_ hsent
    intro j
    by_cases hj : j = i
    · subst hj
      simpa [Receiver.setSession] using hdirection
    · simp [Receiver.setSession, hj]

variable {stage : Stage C}

theorem Inv.append (h : Inv w) {i : ι} {msg : Msg C}
    (hauth : (msg.direction ≠ (w.receiver.sessions i).sealDirection ||
      (i, msg.epoch, msg.counter) ∈ w.sent) = true)
    (hstage : ∀ direction plan, stage ≠ .commit direction plan ∧ stage ≠ .resync direction plan)
    (spool : List (ι × Msg C × ℕ)) :
    Inv { w with
      receiver := { w.receiver with
        spool := spool, tasks := w.receiver.tasks ++ [⟨i, msg, stage⟩] } } := by
  refine ⟨h.sealOnly, ?_⟩
  intro t ht
  rcases List.mem_append.mp ht with hold | hnew
  · exact (h.tasks t hold).of_le (fun _ => rfl) fun _ hmem => hmem
  · obtain rfl := List.mem_singleton.mp hnew
    refine ⟨?_, ?_⟩
    · intro hours
      simpa [show msg.direction = (w.receiver.sessions i).sealDirection from hours] using hauth
    · intro direction plan hplan
      rcases hplan with hplan | hplan
      · exact absurd hplan (hstage direction plan).1
      · exact absurd hplan (hstage direction plan).2

theorem run_cases {w w' : Receiver C ι} {k now : ℕ} (h : w.step (.run k now) = some w') :
    ∃ t stage op, w.tasks[k]? = some t ∧ t.next (w.sessions t.session) now = some (stage, op) ∧
      w' = { (op.elim w fun op => w.setSession t.session (op.run (w.sessions t.session))) with
        tasks := w.tasks.set k { t with stage := stage } } := by
  simp only [Receiver.step] at h
  split at h
  · cases h
  rename_i t ht
  split at h
  · cases h
  rename_i stage op hnext
  refine ⟨t, stage, op, ht, hnext, ?_⟩
  cases op <;> exact (Option.some.inj h).symm

omit [DecidableEq ι] in
theorem Inv.peers (h : Inv w) {k now : ℕ} (hrefused : w.ownPlanRefused (.run k now) = true)
    (ht : w.receiver.tasks[k]? = some t) {op : Option (SessionOp C)}
    (hnext : t.next (w.receiver.sessions t.session) now = some (stage, op)) :
    ∀ direction plan, stage = .commit direction plan ∨ stage = .resync direction plan →
      direction = (w.receiver.sessions t.session).sealDirection.peerDirection := by
  intro direction plan hplan
  rcases next_plan hnext hplan with hpeers | ⟨hours, hfound⟩ | ⟨hstage, hfound⟩
  · exact hpeers
  · have hsent := (h.tasks t (List.mem_of_getElem? ht)).reflected hours
    rw [(h.sealOnly t.session).refused hsent] at hfound
    cases hfound
  · obtain ⟨i, msg, stage'⟩ := t
    obtain rfl : stage' = .resyncOurs := hstage
    simp only [ownPlanRefused, ht, Option.isNone_iff_eq_none] at hrefused
    rw [hrefused] at hfound
    cases hfound

omit [DecidableEq ι] in
theorem Inv.runOp (h : Inv w) (ht : t ∈ w.receiver.tasks) {now : ℕ} {op : SessionOp C}
    (hnext : t.next (w.receiver.sessions t.session) now = some (stage, some op)) :
    SealOnly (op.run (w.receiver.sessions t.session)) (sentBy w.sent t.session) ∧
      OwnChainsKept (w.receiver.sessions t.session)
        (op.run (w.receiver.sessions t.session)) := by
  have hseal := h.sealOnly t.session
  rcases next_op hnext with ⟨direction, plan, rfl, hstage⟩ | hactivated
  · have hne : (w.receiver.sessions t.session).sealDirection ≠ direction := by
      rw [(h.tasks t ht).peers direction plan hstage]
      exact (Receiver.peerDirection_ne _).symm
    refine ⟨hseal.commit t.msg.epoch hne plan, ?_⟩
    intro epoch m hm
    rwa [SessionOp.run, Session.commitOpen, SessionRatchet.chainAt_commitOpen_ne _ _ hne] at hm
  · exact ⟨hseal.moved (.activated hactivated), fun _ _ hm => hactivated.chainAt hseal.slot hm⟩

omit [DecidableEq ι] in
theorem Inv.advance (h : Inv w) {k : ℕ} (ht : w.receiver.tasks[k]? = some t)
    (hpeers : ∀ direction plan, stage = .commit direction plan ∨ stage = .resync direction plan →
      direction = (w.receiver.sessions t.session).sealDirection.peerDirection) :
    Inv { w with
      receiver := { w.receiver with
        tasks := w.receiver.tasks.set k { t with stage := stage } } } := by
  refine ⟨h.sealOnly, ?_⟩
  intro t' ht'
  rcases List.mem_or_eq_of_mem_set ht' with hold | rfl
  · exact (h.tasks t' hold).of_le (fun _ => rfl) fun _ hmem => hmem
  · exact ⟨(h.tasks t (List.mem_of_getElem? ht)).reflected, hpeers⟩

theorem Inv.run {w' : Node C ι} (h : Inv w) {k now : ℕ}
    (hrefused : w.ownPlanRefused (.run k now) = true) (hstep : w.step (.run k now) = some w') :
    Inv w' ∧ ∀ i, OwnChainsKept (w.receiver.sessions i) (w'.receiver.sessions i) := by
  obtain ⟨r, hr, rfl⟩ := Option.map_eq_some_iff.mp hstep
  obtain ⟨t, stage, op, ht, hnext, rfl⟩ := run_cases hr
  have hpeers := h.peers hrefused ht hnext
  cases op with
  | none => exact ⟨h.advance ht hpeers, fun i => .refl _⟩
  | some op =>
      obtain ⟨hseal, hkept⟩ := h.runOp (List.mem_of_getElem? ht) hnext
      have hdirection := run_sealDirection (w.receiver.sessions t.session) op
      refine ⟨(h.write hseal hdirection (fun _ _ => rfl) fun _ hmem => hmem).advance ht ?_, ?_⟩
      · simpa [Receiver.setSession, hdirection] using hpeers
      · intro i
        by_cases hi : i = t.session
        · subst hi
          simpa [Receiver.setSession] using hkept
        · simpa [Receiver.setSession, hi] using OwnChainsKept.refl _

theorem Inv.step {w' : Node C ι} (h : Inv w) {act : ReceiverAct C ι}
    (hauth : w.authentic act = true) (hrefused : w.ownPlanRefused act = true)
    (hstep : w.step act = some w') :
    Inv w' ∧ (act.isReceive = true →
      ∀ i, OwnChainsKept (w.receiver.sessions i) (w'.receiver.sessions i)) := by
  cases act with
  | op i op =>
      refine ⟨?_, fun hreceive => by cases hreceive⟩
      have hop := moved_run (w.receiver.sessions i) op
      have hdirection := run_sealDirection (w.receiver.sessions i) op
      cases op with
      | commitOpen epoch direction plan => cases hstep
      | sealMessage =>
          obtain rfl := Option.some.inj hstep
          refine h.write ?_ hdirection (fun j hj => sentBy_cons_ne hj _ _)
            fun _ hmem => List.mem_cons_of_mem _ hmem
          rw [sentBy_cons_self]
          exact (h.sealOnly i).seal
      | _ =>
          obtain rfl := Option.some.inj hstep
          rcases hop with hop | ⟨_, _, _, hop⟩ | hmoved
          · cases hop
          · cases hop
          · exact h.write ((h.sealOnly i).moved hmoved) hdirection (fun _ _ => rfl)
              fun _ hmem => hmem
  | arrive i msg =>
      obtain ⟨r, hr, rfl⟩ := Option.map_eq_some_iff.mp hstep
      simp only [Receiver.step] at hr
      split at hr
      · cases hr
      · cases hr
        exact ⟨h.append hauth (fun _ _ => ⟨by simp, by simp⟩) _, fun _ _ => .refl _⟩
  | ingest i msg index =>
      obtain ⟨r, hr, rfl⟩ := Option.map_eq_some_iff.mp hstep
      simp only [Receiver.step] at hr
      split at hr
      · cases hr
      split at hr
      · cases hr
        exact ⟨h.append hauth (fun _ _ => ⟨by simp, by simp⟩) _, fun _ _ => .refl _⟩
      · cases hr
        exact ⟨⟨h.sealOnly, fun t ht => (h.tasks t ht).of_le (fun _ => rfl) fun _ hmem => hmem⟩,
          fun _ _ => .refl _⟩
  | run k now =>
      obtain ⟨hinv, hkept⟩ := h.run hrefused hstep
      exact ⟨hinv, fun _ => hkept⟩

end Node

/-- In every run in which a ShardSec message without a plan in the peer's direction has none in the
session's own, the receive path leaves the own sealing chains of every session as they are. -/
theorem own_chains_kept (masterKey : ι → C.Key) (peer : ι → String) (role : ι → SessionRole)
    (now : ι → ℕ) {w w' : Node C ι}
    (h : Lib.Reaches Node.step
      (fun w act => w.authentic act = true ∧ w.ownPlanRefused act = true)
      (Node.start masterKey peer role now) w) {act : ReceiverAct C ι}
    (hact : act.isReceive = true) (hauth : w.authentic act = true)
    (hrefused : w.ownPlanRefused act = true) (hstep : w.step act = some w') (i : ι) :
    OwnChainsKept (w.receiver.sessions i) (w'.receiver.sessions i) := by
  have hinv : Node.Inv w := h.invariant Node.Inv (Node.inv_start masterKey peer role now)
    fun _ _ _ hu hg hstep => (hu.step hg.1 hg.2 hstep).1
  exact (hinv.step hauth hrefused hstep).2 hact i

/-- The first message of an initiator, sent with ShardSec. -/
def firstShardsecMsg : Msg .symbolic := { firstMsg with shardsec := true }

/-- A node with one session, as its responder. -/
def oneResponder : Node .symbolic Unit :=
  .start (C := .symbolic) (fun _ => Term.master 0) (fun _ => "peer") (fun _ => .responder) fun _ => 0

/-- The position of a chain of epoch 0. -/
def Node.posOf (w : Node .symbolic Unit) (direction : NonceDirection) : Option ℕ :=
  ((w.receiver.sessions ()).ratchet.chainAt 0 direction).map MsgChain.pos

/-- Receiving the message moves the peer's chain and not the own one. -/
theorem own_chains_kept_first_message :
    ∃ w w' : Node .symbolic Unit, w.step (.run 0 0) = some w' ∧
      w'.posOf .initiatorToResponder = some 1 ∧
      OwnChainsKept (w.receiver.sessions ()) (w'.receiver.sessions ()) := by
  obtain ⟨w, hw, hp⟩ := Lib.Reaches.of_exec_any Node.step
    (fun w act => w.authentic act = true ∧ w.ownPlanRefused act = true) oneResponder
    [.ingest () firstShardsecMsg 0, .ingest () firstShardsecMsg 1, .run 0 0]
    (fun w => w.authentic (.run 0 0) && w.ownPlanRefused (.run 0 0) &&
      ((w.step (.run 0 0)).bind (·.posOf .initiatorToResponder)) == some 1) (by decide +kernel)
  simp only [Bool.and_eq_true, beq_iff_eq] at hp
  obtain ⟨⟨hauth, hrefused⟩, hpos⟩ := hp
  obtain ⟨w', hstep, hpos'⟩ := Option.bind_eq_some_iff.mp hpos
  exact ⟨w, w', hstep, hpos', own_chains_kept _ _ _ _ hw rfl hauth hrefused hstep ()⟩

/-- Two shards of the message arrive twice before the first copy is committed. The second copy
finds the peer's chain past it and moves the own chain. -/
theorem duplicate_moves_own_chain :
    ¬ ∀ (C : Crypto) (masterKey : Unit → C.Key) (peer : Unit → String)
        (role : Unit → SessionRole) (now : Unit → ℕ) (w w' : Node C Unit)
        (act : ReceiverAct C Unit),
      Lib.Reaches Node.step (fun w act => w.authentic act = true)
          (Node.start masterKey peer role now) w →
        act.isReceive = true → w.authentic act = true → w.step act = some w' →
          OwnChainsKept (w.receiver.sessions ()) (w'.receiver.sessions ()) := by
  intro h
  obtain ⟨w, hw, hp⟩ := Lib.Reaches.of_exec_any Node.step (fun w act => w.authentic act = true)
    oneResponder
    [.ingest () firstShardsecMsg 0, .ingest () firstShardsecMsg 1,
      .ingest () firstShardsecMsg 0, .ingest () firstShardsecMsg 1,
      .run 0 0, .run 0 0, .run 1 0, .run 1 0]
    (fun w => w.posOf .responderToInitiator == some 0 &&
      (w.receiver.sessions ()).sealDirection == .responderToInitiator &&
      ((w.step (.run 1 0)).bind (·.posOf .responderToInitiator)) == some 1) (by decide +kernel)
  simp only [Bool.and_eq_true, beq_iff_eq] at hp
  obtain ⟨⟨hbefore, hours⟩, hafter⟩ := hp
  obtain ⟨w', hstep, hafter⟩ := Option.bind_eq_some_iff.mp hafter
  obtain ⟨m, hm, hpos⟩ := Option.map_eq_some_iff.mp hafter
  have hkept := h .symbolic _ _ _ _ w w' (.run 1 0) hw rfl rfl hstep 0 m (by rwa [hours])
  rw [hours] at hkept
  rw [Node.posOf, hkept, Option.map_some, hpos] at hbefore
  cases hbefore

end Vantablack.Receive
