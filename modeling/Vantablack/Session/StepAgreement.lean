import Vantablack.Session.StepBook

/-!
The step exchange keeps the two sessions together. Every operation of an endpoint is one
of the transitions of its book, and the PDUs in transit are those their sender composed;
with that the invariant of the books holds along every run.
-/

namespace Vantablack.Session

open List

variable {C : Crypto}

/-! ### What the session operations do to the keys -/

/-- Two states of a session that differ in message chains, counters and times only. -/
structure SameCore (s t : Session C) : Prop where
  live : t.ratchet.skeleton = s.ratchet.skeleton
  slot : t.ratchet.pending.map (·.skeleton) = s.ratchet.pending.map (·.skeleton)
  pend : t.pendingStep = s.pendingStep
  busy : t.ratchetInProgress = s.ratchetInProgress
  role : t.role = s.role

variable (s : Session C)

theorem SameCore.refl : SameCore s s := ⟨rfl, rfl, rfl, rfl, rfl⟩

theorem SameCore.trans {s t u : Session C} (h : SameCore s t) (h' : SameCore t u) :
    SameCore s u :=
  ⟨h'.live.trans h.live, h'.slot.trans h.slot, h'.pend.trans h.pend, h'.busy.trans h.busy,
    h'.role.trans h.role⟩

theorem sameCore_sealMaterial : SameCore s s.sealMaterial.2 := by
  obtain ⟨hlive, hslot⟩ := s.ratchet.advanceSeal_skeleton s.sealDirection
  exact ⟨hlive, congrArg _ hslot, rfl, rfl, rfl⟩

theorem sameCore_commitOpen (epoch : ℕ) (direction : NonceDirection) (plan : OpenPlan C.Key) :
    SameCore s (s.commitOpen epoch direction plan) := by
  obtain ⟨hlive, hslot⟩ := s.ratchet.commitOpen_skeleton epoch direction plan
  exact ⟨hlive, hslot, rfl, rfl, rfl⟩

theorem sameCore_triggerForcedRatchetStep (now : ℕ) :
    SameCore s (s.triggerForcedRatchetStep now).2 := by
  unfold triggerForcedRatchetStep
  split
  · exact .refl s
  split
  · split
    · exact .refl s
    · exact ⟨rfl, rfl, rfl, rfl, rfl⟩
  · exact ⟨rfl, rfl, rfl, rfl, rfl⟩

theorem sameCore_tryOpen (now epoch counter : ℕ) (opens : NonceDirection → C.Key → Bool)
    (direction : NonceDirection) : SameCore s (s.tryOpen now epoch counter opens direction).2 := by
  simp only [tryOpen]
  split
  · split
    · exact sameCore_triggerForcedRatchetStep s now
    · exact .refl s
  · split
    · exact sameCore_commitOpen s epoch direction _
    · exact .refl s

theorem sameCore_openReceivedFrame (now epoch counter : ℕ) (opens : NonceDirection → C.Key → Bool) :
    SameCore s (s.openReceivedFrame now epoch counter opens).2 := by
  have hfirst := sameCore_tryOpen s now epoch counter opens s.sealDirection.peerDirection
  unfold openReceivedFrame
  split
  · rename_i heq
    rwa [heq] at hfirst
  · rename_i heq
    rw [heq] at hfirst
    exact hfirst.trans (sameCore_tryOpen _ now epoch counter opens _)

theorem answerRatchetStep_cases (step : RatchetStep C) (coins : C.Coins)
    (peerX peerKemPub : Bytes) :
    s.answerRatchetStep step coins peerX peerKemPub = (none, s) ∨
    ∃ kem kemCt,
      let out := stepOut s.epoch s.ratchet.rootKey (C.diffieHellman step.xSecret peerX) kem
      s.answerRatchetStep step coins peerX peerKemPub =
        (some { xPublic := step.xPublicBytes, kemCt := kemCt
                confirm := C.ratchetConfirm (out.firstKey s.sealDirection.peerDirection)
                epoch := out.epoch },
         { s with ratchet := { s.ratchet with pending := some out } }) := by
  simp only [answerRatchetStep, RatchetStep.respond]
  cases C.kyberEncapsulate coins peerKemPub with
  | none => exact .inl rfl
  | some out => exact .inr ⟨out.2, out.1, rfl⟩

/-! ### Endpoints and their books -/

namespace Endpoint

def book (x : Endpoint C) : Book C :=
  { live := x.session.ratchet.skeleton
    slot := x.session.ratchet.pending.map (·.skeleton)
    pend := x.session.pendingStep
    dir := x.session.sealDirection
    sent := x.sent
    lastBegun := x.lastBegun, lastAdmitted := x.lastAdmitted, lastAnswered := x.lastAnswered }

@[simp] theorem book_epoch (x : Endpoint C) : x.book.epoch = x.session.epoch := rfl

@[simp] theorem book_sent (x : Endpoint C) : x.book.sent = x.sent := rfl

/-- The payload was composed by `x`. -/
def Genuine (x : Endpoint C) (p : Payload C) : Prop := p = .data ∨ p ∈ x.sent

/-- A step in the payload was begun no later than in `epoch`. -/
def BegunBy (p : Payload C) (epoch : ℕ) : Prop := ∀ s, p = .step s → s.begunEpoch ≤ epoch

/-- The PDUs of `x`, from its outbox to the queues of `y`. -/
structure Transit (x y : Endpoint C) : Prop where
  busy : x.session.ratchetInProgress = x.session.pendingStep.isSome
  outbox : ∀ p ∈ x.outbox, p ∈ x.sent
  wire : ∀ f ∈ x.wire, f.epoch ≤ x.session.epoch ∧ Genuine x f.payload ∧ BegunBy f.payload f.epoch
  opened : ∀ e ∈ y.opened, e.1 ≤ x.session.epoch ∧ Genuine x e.2 ∧ BegunBy e.2 e.1
  ready : ∀ p ∈ y.ready, Genuine x p ∧ BegunBy p y.session.epoch
  admitted : ∀ s ∈ y.admitted, Payload.step s ∈ x.sent ∧ s.begunEpoch ≤ y.session.epoch ∧
    s.stamp ≤ y.lastAdmitted

variable {x x' : Endpoint C} {p : Payload C}

theorem Genuine.mono (h : Genuine x p) (hsent : x.sent ⊆ x'.sent) : Genuine x' p :=
  h.imp_right fun hp => hsent hp

theorem BegunBy.mono {e e' : ℕ} (h : BegunBy p e) (hle : e ≤ e') : BegunBy p e' :=
  fun s hs => (h s hs).trans hle

variable {y : Endpoint C}

/-- Epochs and logs only grow, so what is in transit stays in order; what a step adds to
a queue is checked on its own. -/
theorem Transit.mono {y' : Endpoint C} (h : Transit x y)
    (hbusy : x'.session.ratchetInProgress = x'.session.pendingStep.isSome)
    (hsent : x.sent ⊆ x'.sent) (hx : x.session.epoch ≤ x'.session.epoch)
    (hy : y.session.epoch ≤ y'.session.epoch) (hadm : y.lastAdmitted ≤ y'.lastAdmitted)
    (houtbox : ∀ p ∈ x'.outbox, p ∈ x.outbox ∨ p ∈ x'.sent)
    (hwire : ∀ f ∈ x'.wire, f ∈ x.wire ∨ f.epoch ≤ x'.session.epoch ∧ Genuine x' f.payload ∧
      BegunBy f.payload f.epoch)
    (hopened : ∀ e ∈ y'.opened, e ∈ y.opened ∨ e.1 ≤ x'.session.epoch ∧ Genuine x' e.2 ∧
      BegunBy e.2 e.1)
    (hready : ∀ p ∈ y'.ready, p ∈ y.ready ∨ Genuine x' p ∧ BegunBy p y'.session.epoch)
    (hadmitted : ∀ s ∈ y'.admitted, s ∈ y.admitted ∨ Payload.step s ∈ x'.sent ∧
      s.begunEpoch ≤ y'.session.epoch ∧ s.stamp ≤ y'.lastAdmitted) : Transit x' y' where
  busy := hbusy
  outbox := by
    intro p hp
    rcases houtbox p hp with hp | hp
    · exact hsent (h.outbox p hp)
    · exact hp
  wire := by
    intro f hf
    rcases hwire f hf with hf | hf
    · obtain ⟨he, hg, hb⟩ := h.wire f hf
      exact ⟨he.trans hx, hg.mono hsent, hb⟩
    · exact hf
  opened := by
    intro e he
    rcases hopened e he with he | he
    · obtain ⟨hle, hg, hb⟩ := h.opened e he
      exact ⟨hle.trans hx, hg.mono hsent, hb⟩
    · exact he
  ready := by
    intro p hp
    rcases hready p hp with hp | hp
    · obtain ⟨hg, hb⟩ := h.ready p hp
      exact ⟨hg.mono hsent, hb.mono hy⟩
    · exact hp
  admitted := by
    intro s hs
    rcases hadmitted s hs with hs | hs
    · obtain ⟨hg, hb, hstamp⟩ := h.admitted s hs
      exact ⟨hsent hg, hb.trans hy, hstamp.trans hadm⟩
    · exact hs

structure Inv (x y : Endpoint C) (clock : ℕ) : Prop where
  books : Book.Inv x.book y.book clock
  out : Transit x y
  back : Transit y x

variable {clock : ℕ}

theorem Inv.symm (h : Inv x y clock) : Inv y x clock :=
  ⟨h.books.symm, h.back, h.out⟩

theorem SameCore.epoch_eq {s t : Session C} (h : SameCore s t) : t.epoch = s.epoch :=
  congrArg Prod.fst h.live

theorem SameCore.sealDirection_eq {s t : Session C} (h : SameCore s t) :
    t.sealDirection = s.sealDirection := by
  rw [Session.sealDirection, h.role]
  rfl

theorem Inv.shrink (h : Inv x y clock) (hcore : SameCore x.session x'.session)
    (hsent : x'.sent = x.sent)
    (hstamps : x'.lastBegun = x.lastBegun ∧ x'.lastAdmitted = x.lastAdmitted ∧
      x'.lastAnswered = x.lastAnswered) (houtbox : x'.outbox ⊆ x.outbox) (hwire : x'.wire = x.wire)
    (hopened : x'.opened ⊆ x.opened) (hready : x'.ready ⊆ x.ready)
    (hadmitted : x'.admitted ⊆ x.admitted) : Inv x' y clock := by
  have hbook : x'.book = x.book := by
    simp only [book, hcore.live, hcore.slot, hcore.pend, SameCore.sealDirection_eq hcore, hsent,
      hstamps.1, hstamps.2.1, hstamps.2.2]
  have hepoch := SameCore.epoch_eq hcore
  refine ⟨by rw [hbook]; exact h.books, ?_, ?_⟩
  · refine h.out.mono ?_ (by rw [hsent]; exact Subset.refl _) hepoch.ge le_rfl le_rfl
      (fun p hp => .inl (houtbox hp)) (fun f hf => .inl (hwire ▸ hf)) (fun _ he => .inl he)
      (fun _ hp => .inl hp) (fun _ hs => .inl hs)
    rw [hcore.busy, hcore.pend]
    exact h.out.busy
  · exact h.back.mono h.back.busy (Subset.refl _) le_rfl hepoch.ge hstamps.2.1.ge
      (fun _ hp => .inl hp) (fun _ hf => .inl hf) (fun e he => .inl (hopened he))
      (fun p hp => .inl (hready hp)) (fun s hs => .inl (hadmitted hs))

theorem Inv.begin {now : ℕ} {step : RatchetStep C} (h : Inv x y clock)
    (hx : x.begin clock now step = some x') : Inv x' y (clock + 1) := by
  unfold Endpoint.begin at hx
  split at hx
  · cases hx
  rename_i hfresh
  simp only [beginRatchetStep] at hx
  split at hx
  · cases hx
  rename_i out xPublic kemPublic session heq
  split at heq
  · cases heq
  split at heq
  · cases heq
  cases heq
  cases hx
  have hpub : ∀ s, Payload.step s ∈ x.book.sent → s.xPublic ≠ step.xPublicBytes := by
    intro s hs heq
    apply hfresh
    rw [← heq]
    exact mem_filterMap.mpr ⟨.step s, hs, rfl⟩
  refine ⟨h.books.begin step.kemPublicBytes hpub, ?_, ?_⟩
  · refine h.out.mono rfl (subset_cons_self _ _) le_rfl le_rfl le_rfl ?_
      (fun _ hf => .inl hf) (fun _ he => .inl he) (fun _ hp => .inl hp) (fun _ hs => .inl hs)
    intro p hp
    rcases mem_append.mp hp with hp | hp
    · exact .inl hp
    · rw [mem_singleton.mp hp]
      exact .inr mem_cons_self
  · exact h.back.mono h.back.busy (Subset.refl _) le_rfl le_rfl le_rfl (fun _ hp => .inl hp)
      (fun _ hf => .inl hf) (fun _ he => .inl he) (fun _ hp => .inl hp) (fun _ hs => .inl hs)

theorem Inv.sealPayload (h : Inv x y clock) (hp : Genuine x p) : Inv (x.sealPayload p) y clock := by
  have hcore := sameCore_sealMaterial x.session
  have hsealed : Inv { x with session := x.session.sealMaterial.2 } y clock :=
    h.shrink hcore rfl ⟨rfl, rfl, rfl⟩ (Subset.refl _) rfl (Subset.refl _)
      (Subset.refl _) (Subset.refl _)
  have hbegun : BegunBy p x.session.epoch := by
    rintro s rfl
    rcases hp with hp | hp
    · cases hp
    · exact h.books.left.step_epoch s hp
  refine ⟨hsealed.books, ?_, { hsealed.back with }⟩
  refine hsealed.out.mono hsealed.out.busy (Subset.refl _) le_rfl le_rfl le_rfl
    (fun _ hp => .inl hp) ?_ (fun _ he => .inl he) (fun _ hp => .inl hp) (fun _ hs => .inl hs)
  intro f hf
  rcases mem_append.mp hf with hf | hf
  · exact .inl hf
  · rw [mem_singleton.mp hf]
    exact .inr ⟨(SameCore.epoch_eq hcore).ge, hp, hbegun⟩

theorem Inv.receive (h : Inv x y clock) (now : ℕ) {k : ℕ} {frame : Frame C}
    (hk : y.wire[k]? = some frame) :
    Inv (x.receive now frame) { y with wire := y.wire.eraseIdx k } clock := by
  have hopen := sameCore_openReceivedFrame x.session now frame.epoch frame.counter
    (fun direction key => direction = frame.direction ∧ key = frame.key)
  have herase : Inv x { y with wire := y.wire.eraseIdx k } clock := by
    refine ⟨h.books, { h.out with }, h.back.mono h.back.busy (Subset.refl _) le_rfl le_rfl le_rfl
      (fun _ hp => .inl hp) (fun _ hf => .inl (mem_of_mem_eraseIdx hf))
      (fun _ he => .inl he) (fun _ hp => .inl hp) (fun _ hs => .inl hs)⟩
  have hsession : ∀ s, SameCore x.session s →
      Inv { x with session := s } { y with wire := y.wire.eraseIdx k } clock := fun s hs =>
    herase.shrink hs rfl ⟨rfl, rfl, rfl⟩ (Subset.refl _) rfl (Subset.refl _)
      (Subset.refl _) (Subset.refl _)
  unfold Endpoint.receive
  split
  · rename_i session heq
    rw [heq] at hopen
    have hinv := hsession session hopen
    refine ⟨hinv.books, { hinv.out with }, ?_⟩
    refine hinv.back.mono hinv.back.busy (Subset.refl _) le_rfl le_rfl le_rfl
      (fun _ hp => .inl hp) (fun _ hf => .inl hf) ?_ (fun _ hp => .inl hp) (fun _ hs => .inl hs)
    intro e he
    rcases mem_append.mp he with he | he
    · exact .inl he
    · rw [mem_singleton.mp he]
      exact .inr (h.back.wire frame (mem_of_getElem? hk))
  · rename_i session heq
    rw [heq] at hopen
    exact hsession session hopen

theorem book_activateEpoch (x : Endpoint C) (now : ℕ) {sk : Skeleton C}
    (hslot : x.book.slot = some sk) :
    { x with session := (x.session.activateEpoch now sk.1).2 }.book = x.book.install sk ∧
      (x.session.activateEpoch now sk.1).2.ratchetInProgress = x.session.ratchetInProgress ∧
      (x.session.activateEpoch now sk.1).2.pendingStep = x.session.pendingStep := by
  obtain ⟨p, hp, rfl⟩ := Option.map_eq_some_iff.mp hslot
  have hact : x.session.ratchet.activate p.epoch =
      some { x.session.ratchet.install p with steps := x.session.ratchet.steps + 1 } := by
    rcases x.session.ratchet.activate_cases p.epoch with ⟨_, hne⟩ | ⟨p', hp', _, hact⟩
    · exact absurd (by rw [SessionRatchet.preparedEpoch, hp]; rfl) hne
    · rw [hp] at hp'
      cases hp'
      exact hact
  have hepoch : p.skeleton.1 = p.epoch := rfl
  simp only [activateEpoch, hepoch, hact]
  split <;> exact ⟨rfl, rfl, rfl⟩

theorem Inv.activate (h : Inv x y clock) (now : ℕ) {k e : ℕ} (hk : x.opened[k]? = some (e, p)) :
    Inv { x with
      session := x.activate now e, opened := x.opened.eraseIdx k, ready := x.ready ++ [p] }
      y clock := by
  obtain ⟨hle, hgen, hbegun⟩ := h.back.opened _ (mem_of_getElem? hk)
  -- either the frame's epoch is behind us, or the peer is there and we have it prepared
  have hsession : ∃ s, x.activate now e = s ∧ Book.Inv { x with session := s }.book y.book clock ∧
      s.ratchetInProgress = s.pendingStep.isSome ∧ x.session.epoch ≤ s.epoch ∧ e ≤ s.epoch := by
    refine ⟨_, rfl, ?_⟩
    unfold Endpoint.activate
    split
    · rename_i hgt
      obtain ⟨hslot, hy⟩ : x.book.slot = some y.book.live ∧ y.book.epoch = x.book.epoch + 1 := by
        rcases h.books.cases with ⟨_, he⟩ | ⟨_, he⟩ | ⟨hslot, he⟩
        · simp only [book_epoch] at he
          simp only at hle
          omega
        · simp only [book_epoch] at he
          simp only at hle
          omega
        · exact ⟨hslot, he⟩
      have he : e = y.book.live.1 := by
        simp only [book_epoch] at hy
        simp only at hle
        have : y.book.live.1 = y.session.epoch := rfl
        omega
      subst he
      obtain ⟨hbook, hbusy, hpend⟩ := book_activateEpoch x now hslot
      have hepoch : (x.session.activateEpoch now y.book.live.1).2.epoch = y.book.live.1 :=
        congrArg Book.epoch hbook
      refine ⟨?_, ?_, hgt.le.trans hepoch.ge, hepoch.ge⟩
      · rw [hbook]
        exact h.books.activate hslot (by omega)
      · rw [hbusy, hpend]
        exact h.out.busy
    · rename_i hnot
      exact ⟨h.books, h.out.busy, le_rfl, by omega⟩
  obtain ⟨s, hs, hbooks, hbusy, hmono, he⟩ := hsession
  rw [hs]
  refine ⟨hbooks, ?_, ?_⟩
  · exact h.out.mono hbusy (Subset.refl _) hmono le_rfl le_rfl (fun _ hp => .inl hp)
      (fun _ hf => .inl hf) (fun _ he => .inl he) (fun _ hp => .inl hp) (fun _ hs => .inl hs)
  · refine h.back.mono h.back.busy (Subset.refl _) le_rfl hmono le_rfl (fun _ hp => .inl hp)
      (fun _ hf => .inl hf) (fun _ he => .inl (mem_of_mem_eraseIdx he)) ?_
      (fun _ hs => .inl hs)
    intro q hq
    rcases mem_append.mp hq with hq | hq
    · exact .inl hq
    · rw [mem_singleton.mp hq]
      exact .inr ⟨hgen, hbegun.mono he⟩

theorem Inv.drop (h : Inv x y clock) {s : Session C} (hr : s.ratchet = x.session.ratchet)
    (hrole : s.role = x.session.role) (hpend : s.pendingStep = none)
    (hbusy : s.ratchetInProgress = false) : Inv { x with session := s } y clock := by
  have hbook : { x with session := s }.book = x.book.drop := by
    simp only [book, Book.drop, hr, hpend, sealDirection, hrole]
  have hepoch : s.epoch = x.session.epoch := congrArg SessionRatchet.epoch hr
  refine ⟨by rw [hbook]; exact h.books.drop, ?_, ?_⟩
  · refine h.out.mono ?_ (Subset.refl _) hepoch.ge le_rfl le_rfl (fun _ hp => .inl hp)
      (fun _ hf => .inl hf) (fun _ he => .inl he) (fun _ hp => .inl hp) (fun _ hs => .inl hs)
    rw [hpend, hbusy]
    rfl
  · exact h.back.mono h.back.busy (Subset.refl _) le_rfl hepoch.ge le_rfl
      (fun _ hp => .inl hp) (fun _ hf => .inl hf) (fun _ he => .inl he) (fun _ hp => .inl hp)
      (fun _ hs => .inl hs)

theorem Inv.admitStep (h : Inv x y clock) {pdu : StepPdu} (hsent : Payload.step pdu ∈ y.sent)
    (hbegun : pdu.begunEpoch ≤ x.session.epoch) : Inv (x.admitStep pdu) y clock := by
  have hstay : ∀ s : Session C, s.ratchet = x.session.ratchet → s.role = x.session.role →
      s.pendingStep = none → s.ratchetInProgress = false →
      Inv { x with
        session := s, admitted := x.admitted ++ [pdu]
        lastAdmitted := max x.lastAdmitted pdu.stamp } y clock := by
    intro s hr hrole hpend hbusy
    have hdrop := h.drop hr hrole hpend hbusy
    have hepoch : s.epoch = x.session.epoch := congrArg SessionRatchet.epoch hr
    refine ⟨?_, ?_, ?_⟩
    · have hbook : { x with
          session := s, admitted := x.admitted ++ [pdu]
          lastAdmitted := max x.lastAdmitted pdu.stamp }.book = x.book.admitStep pdu.stamp := by
        simp only [book, Book.admitStep, hr, hpend, sealDirection, hrole]
      rw [hbook]
      exact h.books.admitStep hsent
    · exact { hdrop.out with }
    · refine hdrop.back.mono hdrop.back.busy (Subset.refl _) le_rfl le_rfl (le_max_left _ _)
        (fun _ hp => .inl hp) (fun _ hf => .inl hf) (fun _ he => .inl he) (fun _ hp => .inl hp) ?_
      intro q hq
      rcases mem_append.mp hq with hq | hq
      · exact .inl hq
      · rw [mem_singleton.mp hq]
        exact .inr ⟨hsent, hbegun.trans hepoch.ge, le_max_right _ _⟩
  simp only [Endpoint.admitStep, admitPeerStep]
  by_cases hbusy : x.session.ratchetInProgress = true
  · simp only [hbusy, Bool.not_true, Bool.false_eq_true, if_false]
    by_cases hfp : x.fingerprint < x.session.peerFingerprint
    · simp only [hfp, if_true]
      exact h
    · simp only [hfp, if_false]
      exact hstay _ rfl rfl rfl rfl
  · rw [Bool.not_eq_true] at hbusy
    simp only [hbusy, Bool.not_false, if_true]
    have hnone : x.session.pendingStep = none := by
      rw [← Option.not_isSome_iff_eq_none, ← h.out.busy, hbusy]
      exact Bool.false_ne_true
    exact hstay _ rfl rfl hnone hbusy

theorem Inv.answer (h : Inv x y clock) {pdu : StepPdu} (hsent : Payload.step pdu ∈ y.sent)
    (hbegun : pdu.begunEpoch ≤ x.session.epoch) (hadm : pdu.stamp ≤ x.lastAdmitted)
    (horder : x.lastAnswered < pdu.stamp) (step : RatchetStep C) (coins : C.Coins) :
    Inv (x.answer pdu step coins) y clock := by
  rcases answerRatchetStep_cases x.session step coins pdu.xPublic pdu.kemPublic with
    heq | ⟨kem, kemCt, heq⟩
  · rw [Endpoint.answer, heq]
    exact h
  · simp only [Endpoint.answer, heq]
    refine ⟨h.books.answer hsent hbegun hadm horder step.xSecret kem kemCt, ?_, ?_⟩
    · refine h.out.mono h.out.busy (subset_cons_self _ _) le_rfl le_rfl le_rfl ?_
        (fun _ hf => .inl hf) (fun _ he => .inl he) (fun _ hp => .inl hp) (fun _ hs => .inl hs)
      intro p hp
      rcases mem_append.mp hp with hp | hp
      · exact .inl hp
      · rw [mem_singleton.mp hp]
        exact .inr mem_cons_self
    · exact h.back.mono h.back.busy (Subset.refl _) le_rfl le_rfl le_rfl
        (fun _ hp => .inl hp) (fun _ hf => .inl hf) (fun _ he => .inl he) (fun _ hp => .inl hp)
        (fun _ hs => .inl hs)

theorem Inv.finish (hC : C.IdealSteps) (h : Inv x y clock) (now expected : ℕ) {pdu : AnswerPdu C}
    (hsent : Payload.answer pdu ∈ y.sent) : Inv (x.finish now expected pdu) y clock := by
  rcases finishRatchetStep_cases x.session now
      { xPublic := pdu.xPublic, kemCt := pdu.kemCt, confirm := pdu.confirm, epoch := expected }
    with ⟨_, heq⟩ | heq | ⟨step, epoch, hpend, hconf, heq⟩
  · rw [Endpoint.finish, heq]
    exact h
  · rw [Endpoint.finish, heq]
    exact h.drop rfl rfl rfl rfl
  · rw [Endpoint.finish, heq]
    refine ⟨h.books.finish hC hpend hsent hconf, ?_, ?_⟩
    · exact h.out.mono rfl (Subset.refl _) (Nat.le_succ _) le_rfl le_rfl
        (fun _ hp => .inl hp) (fun _ hf => .inl hf) (fun _ he => .inl he) (fun _ hp => .inl hp)
        (fun _ hs => .inl hs)
    · exact h.back.mono h.back.busy (Subset.refl _) le_rfl (Nat.le_succ _) le_rfl
        (fun _ hp => .inl hp) (fun _ hf => .inl hf) (fun _ he => .inl he) (fun _ hp => .inl hp)
        (fun _ hs => .inl hs)

theorem Inv.dequeue (h : Inv x y clock) (k l m : ℕ) :
    Inv { x with outbox := x.outbox.eraseIdx k } y clock ∧
      Inv { x with ready := x.ready.eraseIdx l } y clock ∧
      Inv { x with admitted := x.admitted.eraseIdx m } y clock := by
  refine ⟨?_, ?_, ?_⟩ <;> refine h.shrink (.refl _) rfl ⟨rfl, rfl, rfl⟩ ?_ rfl ?_ ?_ ?_ <;>
    first
    | exact Subset.refl _
    | exact fun _ hp => mem_of_mem_eraseIdx hp

theorem Inv.step (hC : C.IdealSteps) {y' : Endpoint C} {clock' : ℕ} (h : Inv x y clock)
    {act : ExchangeAct C}
    (horder : ∀ k st coins pdu, act = .answer k st coins → x.admitted[k]? = some pdu →
      x.lastAnswered < pdu.stamp) (hstep : x.step y clock act = some (x', y', clock')) :
    Inv x' y' clock' := by
  cases act with
  | begin now st =>
      obtain ⟨x₁, hx₁, heq⟩ := Option.map_eq_some_iff.mp hstep
      cases heq
      exact h.begin hx₁
  | send k =>
      simp only [Endpoint.step] at hstep
      split at hstep
      · cases hstep
      · rename_i p hk
        cases hstep
        exact (h.dequeue k 0 0).1.sealPayload (.inr (h.out.outbox p (mem_of_getElem? hk)))
  | sendData =>
      cases hstep
      exact h.sealPayload (.inl rfl)
  | deliver now k =>
      simp only [Endpoint.step] at hstep
      split at hstep
      · cases hstep
      · rename_i frame hk
        cases hstep
        exact h.receive now hk
  | activate now k =>
      simp only [Endpoint.step] at hstep
      split at hstep
      · cases hstep
      · rename_i e p hk
        cases hstep
        exact h.activate now hk
  | admitStep k =>
      simp only [Endpoint.step] at hstep
      split at hstep
      · rename_i pdu hk
        cases hstep
        obtain ⟨hgen, hbegun⟩ := h.back.ready _ (mem_of_getElem? hk)
        refine (h.dequeue 0 k 0).2.1.admitStep ?_ (hbegun pdu rfl)
        rcases hgen with hdata | hsent
        · cases hdata
        · exact hsent
      · cases hstep
  | answer k st coins =>
      simp only [Endpoint.step] at hstep
      split at hstep
      · cases hstep
      · rename_i pdu hk
        cases hstep
        obtain ⟨hsent, hbegun, hadm⟩ := h.back.admitted _ (mem_of_getElem? hk)
        exact (h.dequeue 0 0 k).2.2.answer hsent hbegun hadm (horder k st coins pdu rfl hk) st coins
  | finish now k expected =>
      simp only [Endpoint.step] at hstep
      split at hstep
      · rename_i pdu hk
        cases hstep
        refine (h.dequeue 0 k 0).2.1.finish hC now expected ?_
        rcases (h.back.ready _ (mem_of_getElem? hk)).1 with hdata | hsent
        · cases hdata
        · exact hsent
      · cases hstep
  | abandon =>
      cases hstep
      exact h.drop rfl rfl rfl rfl

end Endpoint

/-! ### Whole runs -/

namespace Exchange

theorem inv_start (masterKey : C.Key) (fpA fpB : String) (now : ℕ) :
    Endpoint.Inv (start masterKey fpA fpB now).a (start masterKey fpA fpB now).b 0 := by
  have hhalf : ∀ x y : Book C, x.dir = y.dir.peerDirection → x.slot = none → x.pend = none →
      x.sent = [] → x.lastBegun = 0 → x.lastAdmitted = 0 → Book.Half x y 0 := by
    intro x y hdir hslot hpend hsent hbegun hadm
    constructor <;> simp [hdir, hslot, hpend, hsent, hbegun, hadm]
  refine ⟨⟨hhalf _ _ rfl rfl rfl rfl rfl rfl, hhalf _ _ rfl rfl rfl rfl rfl rfl, .inl rfl⟩, ?_, ?_⟩
  · constructor <;> simp [start, Endpoint.start, newWithRole]
  · constructor <;> simp [start, Endpoint.start, newWithRole]

theorem inv_step (hC : C.IdealSteps) {w w' : Exchange C} {act : Peer × ExchangeAct C}
    (h : Endpoint.Inv w.a w.b w.clock) (horder : w.InOrder act) (hstep : w.step act = some w') :
    Endpoint.Inv w'.a w'.b w'.clock := by
  obtain ⟨i, act⟩ := act
  have hguard : ∀ k st coins pdu, act = .answer k st coins →
      (w.actor i).admitted[k]? = some pdu → (w.actor i).lastAnswered < pdu.stamp := by
    rintro k st coins pdu rfl hk
    simpa only [InOrder, hk] using horder
  cases i with
  | a =>
      obtain ⟨⟨a, b, clock⟩, hlocal, rfl⟩ := Option.map_eq_some_iff.mp hstep
      exact h.step hC hguard hlocal
  | b =>
      obtain ⟨⟨b, a, clock⟩, hlocal, rfl⟩ := Option.map_eq_some_iff.mp hstep
      exact (h.symm.step hC hguard hlocal).symm

theorem aheadPrepared_of_inv {x y : Endpoint C} {clock : ℕ} (h : Endpoint.Inv x y clock) :
    AheadPrepared x.session y.session := by
  intro hahead
  rcases h.books.cases with ⟨_, he⟩ | ⟨hslot, _⟩ | ⟨_, he⟩
  · simp only [Endpoint.book_epoch] at he
    omega
  · obtain ⟨p, hp, hskel⟩ := Option.map_eq_some_iff.mp hslot
    refine ⟨p, hp, congrArg Prod.fst hskel, congrArg (·.2.1) hskel, congrArg (·.2.2.1) hskel,
      congrArg (·.2.2.2) hskel⟩
  · simp only [Endpoint.book_epoch] at he
    omega

theorem agree_of_inv {w : Exchange C} (h : Endpoint.Inv w.a w.b w.clock) : w.Agree := by
  refine ⟨aheadPrepared_of_inv h, aheadPrepared_of_inv h.symm, ?_⟩
  intro heq
  rcases h.books.cases with ⟨hlive, _⟩ | ⟨_, he⟩ | ⟨_, he⟩
  · exact ⟨congrArg (·.2.1) hlive, congrArg (·.2.2.1) hlive, congrArg (·.2.2.2) hlive⟩
  · simp only [Endpoint.book_epoch] at he
    omega
  · simp only [Endpoint.book_epoch] at he
    omega

end Exchange

open Exchange

/-- In every run of the exchange in which each side answers the peer's steps in the order
they were begun, the two sessions agree in every state reached. -/
theorem exchange_agree (hC : C.IdealSteps) (masterKey : C.Key) (fpA fpB : String) (now : ℕ)
    {w : Exchange C} (h : Lib.Reaches Exchange.step InOrder (start masterKey fpA fpB now) w) :
    w.Agree :=
  agree_of_inv (h.invariant (fun w => Endpoint.Inv w.a w.b w.clock)
    (inv_start masterKey fpA fpB now) fun _ _ _ hu hg hstep => inv_step hC hu hg hstep)

/-- One step begun, answered and finished, and the first frame in the new epoch. -/
theorem exchange_agree_one_step :
    ∃ w : Exchange .symbolic, w.a.session.epoch = 1 ∧ w.b.session.epoch = 1 ∧ w.Agree := by
  obtain ⟨w, hw, hp⟩ := Lib.Reaches.of_exec_any Exchange.step InOrder
    (start (C := .symbolic) (Term.master 0) "a" "b" 0)
    [(.a, .begin 0 ⟨[1], [1]⟩), (.a, .send 0), (.b, .deliver 0 0), (.b, .activate 0 0),
      (.b, .admitStep 0), (.b, .answer 0 ⟨[2], [2]⟩ [9]), (.b, .send 0), (.a, .deliver 0 0),
      (.a, .activate 0 0), (.a, .finish 0 0 1), (.a, .sendData), (.b, .deliver 0 0),
      (.b, .activate 0 0)]
    (fun w => w.a.session.epoch == 1 && w.b.session.epoch == 1) (by decide +kernel)
  simp only [Bool.and_eq_true, beq_iff_eq] at hp
  exact ⟨w, hp.1, hp.2, exchange_agree Crypto.symbolic_idealSteps _ _ _ _ hw⟩

/-- A step is begun, abandoned and begun again. The peer answers the second one, then the
first one, which overtakes it in the slot; the answer to the second one is still good. -/
theorem exchange_disagrees :
    ¬ ∀ (C : Crypto) (masterKey : C.Key) (fpA fpB : String) (now : ℕ) (w : Exchange C),
      C.IdealSteps → fpA ≠ fpB →
      Lib.Reaches Exchange.step (fun _ _ => True) (start masterKey fpA fpB now) w →
        w.Agree := by
  intro h
  obtain ⟨w, hw, hp⟩ := Lib.Reaches.of_exec_any Exchange.step (fun _ _ => True)
    (start (C := .symbolic) (Term.master 0) "a" "b" 0)
    [(.a, .begin 0 ⟨[1], [1]⟩), (.a, .abandon), (.a, .begin 0 ⟨[2], [2]⟩), (.a, .send 0),
      (.a, .send 0), (.b, .deliver 0 1), (.b, .activate 0 0), (.b, .admitStep 0),
      (.b, .answer 0 ⟨[3], [3]⟩ [9]), (.b, .deliver 0 0), (.b, .activate 0 0), (.b, .admitStep 0),
      (.b, .answer 0 ⟨[4], [4]⟩ [8]), (.b, .send 0), (.a, .deliver 0 0), (.a, .activate 0 0),
      (.a, .finish 0 0 1)]
    (fun w => w.a.session.epoch == 1 && w.b.session.epoch == 0 &&
      w.b.session.ratchet.pending.all fun p => decide (p.rootKey ≠ w.a.session.ratchet.rootKey))
    (by decide +kernel)
  simp only [Bool.and_eq_true, beq_iff_eq] at hp
  obtain ⟨⟨ha, hb⟩, hroot⟩ := hp
  obtain ⟨p, hpend, _, hsame, _⟩ := (h .symbolic _ "a" "b" 0 w Crypto.symbolic_idealSteps
    (by decide) hw).1 (by omega)
  rw [hpend] at hroot
  exact (of_decide_eq_true hroot) hsame

end Vantablack.Session
