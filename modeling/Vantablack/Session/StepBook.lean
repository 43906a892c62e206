import Vantablack.Session.StepExchange

/-!
The step exchange without its frames. A book is what the argument for agreement needs to
know of an endpoint: the keys of the live epoch and of the prepared one, the step it
waits on, and what it has composed, admitted and answered so far. The transitions of a
book are those of the session operations; `BookInv` is kept by each of them, provided
steps are answered in the order they were begun.
-/

namespace Vantablack.Session

variable {C : Crypto}

abbrev Skeleton (C : Crypto) := ℕ × C.Key × C.Key × C.Key

/-- The epoch after `epoch` that a hybrid step over `root` leads to. -/
def stepOut (epoch : ℕ) (root : C.Key) (dh : C.Dh) (kem : C.KemShared) : PreparedEpoch C :=
  .ofRoot (epoch + 1) (C.kdfRkHybrid root dh kem)

theorem firstKey_stepOut_inj (hC : C.IdealSteps) {e e' : ℕ} {r r' : C.Key} {d d' : C.Dh}
    {k k' : C.KemShared} (direction : NonceDirection)
    (h : (stepOut e r d k).firstKey direction = (stepOut e' r' d' k').firstKey direction) :
    e = e' ∧ r = r' ∧ d = d' ∧ k = k' := by
  have hseed := hC.kdfCk_key_inj _ _ h
  cases direction with
  | initiatorToResponder =>
      obtain ⟨hchain, he⟩ := hC.deriveEpochKey_inj _ _ _ _ hseed
      have hroot := hC.kdfRkHybrid_toResp_inj _ _ _ _ _ _ (hC.kdfCk_next_inj _ _ hchain)
      exact ⟨Nat.succ.inj he, hroot⟩
  | responderToInitiator =>
      obtain ⟨hchain, he⟩ := hC.deriveEpochKey_inj _ _ _ _ hseed
      have hroot := hC.kdfRkHybrid_toInit_inj _ _ _ _ _ _ (hC.kdfCk_next_inj _ _ hchain)
      exact ⟨Nat.succ.inj he, hroot⟩

structure Book (C : Crypto) where
  live : Skeleton C
  slot : Option (Skeleton C)
  pend : Option (RatchetStep C)
  dir : NonceDirection
  sent : List (Payload C)
  lastBegun : ℕ
  lastAdmitted : ℕ
  lastAnswered : ℕ

namespace Book

def epoch (x : Book C) : ℕ := x.live.1

/-- How `x` came by an answer to a step of `y`. -/
def Computed (x y : Book C) (a : AnswerPdu C) : Prop :=
  ∃ s sec kem, Payload.step s ∈ y.sent ∧ s.stamp = a.stamp ∧ a.xPublic = C.xPublic sec ∧
    a.prepared =
      (stepOut a.baseEpoch a.baseRoot (C.diffieHellman sec s.xPublic) kem).skeleton ∧
    a.confirm = C.ratchetConfirm
      ((stepOut a.baseEpoch a.baseRoot (C.diffieHellman sec s.xPublic) kem).firstKey
        x.dir.peerDirection)

def Linked (x y : Book C) : Prop :=
  x.live = y.live ∨ y.slot = some x.live ∨ x.slot = some y.live

/-- What holds of `x`, seen with its peer `y`. -/
structure Half (x y : Book C) (clock : ℕ) : Prop where
  dir : x.dir = y.dir.peerDirection
  slot_epoch : ∀ sk, x.slot = some sk → sk.1 = x.epoch + 1
  begun_le : x.lastBegun ≤ clock
  admitted_le : x.lastAdmitted ≤ clock
  step_stamp : ∀ s, Payload.step s ∈ x.sent → s.stamp ≤ x.lastBegun
  step_epoch : ∀ s, Payload.step s ∈ x.sent → s.begunEpoch ≤ x.epoch
  step_public : ∀ s, Payload.step s ∈ x.sent → ∃ sec, s.xPublic = C.xPublic sec
  step_unique : ∀ s s', Payload.step s ∈ x.sent → Payload.step s' ∈ x.sent →
    s.xPublic = s'.xPublic → s.stamp = s'.stamp
  /-- The step waited on is the newest one begun. -/
  pend : ∀ st, x.pend = some st →
    ∃ s, Payload.step s ∈ x.sent ∧ s.stamp = x.lastBegun ∧ s.xPublic = st.xPublicBytes
  /-- Nothing was admitted since the step waited on was begun. -/
  cross : x.pend.isSome → x.lastAdmitted < x.lastBegun
  answer_epoch : ∀ a, Payload.answer a ∈ x.sent → a.baseEpoch ≤ x.epoch
  answer_stamp : ∀ a, Payload.answer a ∈ x.sent →
    a.stamp ≤ x.lastAnswered ∧ a.stamp ≤ x.lastAdmitted
  answer_computed : ∀ a, Payload.answer a ∈ x.sent → Computed x y a
  /-- The answer the peer waits for, if made on the live epoch, is what is prepared. -/
  held : ∀ a, Payload.answer a ∈ x.sent → y.pend.isSome → a.stamp = y.lastBegun →
    a.baseEpoch = x.epoch → x.slot = some a.prepared
  /-- Whoever is ahead owes the peer no answer on the epoch the peer is in. -/
  behind : x.epoch = y.epoch + 1 → ∀ a, Payload.answer a ∈ x.sent → y.pend.isSome →
    a.stamp = y.lastBegun → a.baseEpoch ≠ y.epoch
  /-- Whoever is ahead had all its earlier steps overtaken by one the peer answered. -/
  old : x.epoch = y.epoch + 1 → ∀ s, Payload.step s ∈ x.sent → s.begunEpoch ≤ y.epoch →
    s.stamp ≤ y.lastAnswered

structure Inv (x y : Book C) (clock : ℕ) : Prop where
  left : Half x y clock
  right : Half y x clock
  linked : Linked x y

variable {x y : Book C}

theorem Linked.symm (h : Linked x y) : Linked y x := by
  rcases h with h | h | h
  · exact .inl h.symm
  · exact .inr (.inr h)
  · exact .inr (.inl h)

variable {clock : ℕ}

theorem Inv.symm (h : Inv x y clock) : Inv y x clock :=
  ⟨h.right, h.left, h.linked.symm⟩

/-- Of two linked books neither is more than one epoch ahead, and the one behind has the
other's epoch prepared. -/
theorem Inv.cases (h : Inv x y clock) :
    (x.live = y.live ∧ x.epoch = y.epoch) ∨
    (y.slot = some x.live ∧ x.epoch = y.epoch + 1) ∨
    (x.slot = some y.live ∧ y.epoch = x.epoch + 1) := by
  rcases h.linked with heq | hslot | hslot
  · exact .inl ⟨heq, congrArg Prod.fst heq⟩
  · exact .inr (.inl ⟨hslot, h.right.slot_epoch _ hslot⟩)
  · exact .inr (.inr ⟨hslot, h.left.slot_epoch _ hslot⟩)

theorem Computed.mono {x' y' : Book C} {a : AnswerPdu C} (h : Computed x y a)
    (hdir : x'.dir = x.dir) (hsub : ∀ p ∈ y.sent, p ∈ y'.sent) : Computed x' y' a := by
  obtain ⟨s, sec, kem, hs, hstamp, hpub, hprep, hconf⟩ := h
  refine ⟨s, sec, kem, hsub _ hs, hstamp, hpub, hprep, ?_⟩
  rw [hdir]
  exact hconf

/-! ### The transitions -/

def begin (x : Book C) (clock : ℕ) (st : RatchetStep C) (kemPublic : Bytes) : Book C :=
  { x with
    pend := some st, lastBegun := clock + 1
    sent := .step { stamp := clock + 1, begunEpoch := x.epoch, xPublic := st.xPublicBytes
                    kemPublic := kemPublic } :: x.sent }

def drop (x : Book C) : Book C := { x with pend := none }

def admitStep (x : Book C) (stamp : ℕ) : Book C :=
  { x with pend := none, lastAdmitted := max x.lastAdmitted stamp }

def answer (x : Book C) (s : StepPdu) (sec : C.XSecret) (kem : C.KemShared) (kemCt : Bytes) :
    Book C :=
  let out := stepOut x.live.1 x.live.2.1 (C.diffieHellman sec s.xPublic) kem
  { x with
    slot := some out.skeleton, lastAnswered := max x.lastAnswered s.stamp
    sent := .answer { stamp := s.stamp, baseEpoch := x.live.1, baseRoot := x.live.2.1
                      prepared := out.skeleton, xPublic := C.xPublic sec, kemCt := kemCt
                      confirm := C.ratchetConfirm (out.firstKey x.dir.peerDirection) } :: x.sent }

def install (x : Book C) (sk : Skeleton C) : Book C := { x with live := sk, slot := none }

theorem Inv.begin (h : Inv x y clock) {st : RatchetStep C} (kemPublic : Bytes)
    (hfresh : ∀ s, Payload.step s ∈ x.sent → s.xPublic ≠ st.xPublicBytes) :
    Inv (x.begin clock st kemPublic) y (clock + 1) := by
  have hbegun := h.left.begun_le
  -- nothing has been answered under the new stamp yet
  have hnew : ∀ a, Payload.answer a ∈ y.sent → a.stamp ≠ clock + 1 := by
    intro a ha heq
    have hstamp := (h.right.answer_stamp a ha).2
    have hadm := h.right.admitted_le
    omega
  have hold : ∀ a, Payload.answer a ∈ (x.begin clock st kemPublic).sent →
      Payload.answer a ∈ x.sent := by
    intro a ha
    simpa [Book.begin] using ha
  refine ⟨?_, ?_, h.linked⟩
  · exact
    { dir := h.left.dir
      slot_epoch := h.left.slot_epoch
      begun_le := le_rfl
      admitted_le := h.left.admitted_le.trans (Nat.le_succ _)
      step_stamp := by
        intro s hs
        rcases List.mem_cons.mp hs with heq | hs
        · cases heq
          exact le_rfl
        · have := h.left.step_stamp s hs
          simp only [Book.begin]
          omega
      step_epoch := by
        intro s hs
        rcases List.mem_cons.mp hs with heq | hs
        · cases heq
          exact le_rfl
        · exact h.left.step_epoch s hs
      step_public := by
        intro s hs
        rcases List.mem_cons.mp hs with heq | hs
        · cases heq
          exact ⟨st.xSecret, rfl⟩
        · exact h.left.step_public s hs
      step_unique := by
        intro s s' hs hs' heq
        rcases List.mem_cons.mp hs with hs | hs <;> rcases List.mem_cons.mp hs' with hs' | hs'
        · cases hs
          cases hs'
          rfl
        · cases hs
          exact absurd heq.symm (hfresh s' hs')
        · cases hs'
          exact absurd heq (hfresh s hs)
        · exact h.left.step_unique s s' hs hs' heq
      pend := by
        rintro st' ⟨⟩
        exact ⟨_, List.mem_cons_self, rfl, rfl⟩
      cross := by
        intro _
        have := h.left.admitted_le
        simp only [Book.begin]
        omega
      answer_epoch := fun a ha => h.left.answer_epoch a (hold a ha)
      answer_stamp := fun a ha => h.left.answer_stamp a (hold a ha)
      answer_computed := fun a ha => h.left.answer_computed a (hold a ha)
      held := fun a ha => h.left.held a (hold a ha)
      behind := fun he a ha => h.left.behind he a (hold a ha)
      old := by
        intro he s hs hle
        rcases List.mem_cons.mp hs with heq | hs
        · cases heq
          simp only [Book.begin, epoch] at he hle
          omega
        · exact h.left.old he s hs hle }
  · exact
    { h.right with
      begun_le := h.right.begun_le.trans (Nat.le_succ _)
      admitted_le := h.right.admitted_le.trans (Nat.le_succ _)
      answer_computed := fun a ha =>
        (h.right.answer_computed a ha).mono rfl fun _ hp => List.mem_cons_of_mem _ hp
      held := fun a ha _ heq => absurd heq (hnew a ha)
      behind := fun _ a ha _ heq => absurd heq (hnew a ha) }

theorem Inv.drop (h : Inv x y clock) : Inv x.drop y clock where
  left := { h.left with
    pend := by
      rintro _ ⟨⟩
    cross := by
      rintro ⟨⟩ }
  right := { h.right with
    held := by
      rintro _ _ ⟨⟩
    behind := by
      rintro _ _ _ ⟨⟩ }
  linked := h.linked

theorem Inv.admitStep (h : Inv x y clock) {s : StepPdu} (hs : Payload.step s ∈ y.sent) :
    Inv (x.admitStep s.stamp) y clock where
  left := { h.drop.left with
    admitted_le := by
      have hstamp := h.right.step_stamp s hs
      exact max_le h.left.admitted_le (hstamp.trans h.right.begun_le)
    answer_stamp := by
      intro a ha
      obtain ⟨hans, hadm⟩ := h.left.answer_stamp a ha
      exact ⟨hans, hadm.trans (le_max_left _ _)⟩
    cross := by
      rintro ⟨⟩ }
  right := { h.drop.right with }
  linked := h.linked

theorem Inv.answer (h : Inv x y clock) {s : StepPdu} (hs : Payload.step s ∈ y.sent)
    (hepoch : s.begunEpoch ≤ x.epoch) (hadm : s.stamp ≤ x.lastAdmitted)
    (horder : x.lastAnswered < s.stamp) (sec : C.XSecret) (kem : C.KemShared) (kemCt : Bytes) :
    Inv (x.answer s sec kem kemCt) y clock := by
  have hstamp := h.right.step_stamp s hs
  -- an older answer is not for the newest step, since that is `s` or begun after it
  have hstale : ∀ a, Payload.answer a ∈ x.sent → a.stamp ≠ y.lastBegun := by
    intro a ha heq
    have := (h.left.answer_stamp a ha).1
    omega
  have hold : ∀ s', Payload.step s' ∈ (x.answer s sec kem kemCt).sent →
      Payload.step s' ∈ x.sent := by
    intro s' hs'
    simpa [Book.answer] using hs'
  refine ⟨?_, ?_, ?_⟩
  · exact
    { h.left with
      slot_epoch := by
        rintro sk ⟨⟩
        rfl
      step_stamp := fun s' hs' => h.left.step_stamp s' (hold s' hs')
      step_epoch := fun s' hs' => h.left.step_epoch s' (hold s' hs')
      step_public := fun s' hs' => h.left.step_public s' (hold s' hs')
      step_unique := fun s₁ s₂ h₁ h₂ => h.left.step_unique s₁ s₂ (hold s₁ h₁) (hold s₂ h₂)
      pend := by
        intro st hst
        obtain ⟨s', hs', hrest⟩ := h.left.pend st hst
        exact ⟨s', List.mem_cons_of_mem _ hs', hrest⟩
      answer_epoch := by
        intro a ha
        rcases List.mem_cons.mp ha with heq | ha
        · cases heq
          exact le_rfl
        · exact h.left.answer_epoch a ha
      answer_stamp := by
        intro a ha
        rcases List.mem_cons.mp ha with heq | ha
        · cases heq
          exact ⟨le_max_right _ _, hadm⟩
        · obtain ⟨hans, hadm⟩ := h.left.answer_stamp a ha
          exact ⟨hans.trans (le_max_left _ _), hadm⟩
      answer_computed := by
        intro a ha
        rcases List.mem_cons.mp ha with heq | ha
        · cases heq
          exact ⟨s, sec, kem, hs, rfl, rfl, rfl, rfl⟩
        · exact h.left.answer_computed a ha
      held := by
        intro a ha _ heq _
        rcases List.mem_cons.mp ha with hnew | ha
        · cases hnew
          rfl
        · exact absurd heq (hstale a ha)
      behind := by
        intro he a ha hpend heq
        rcases List.mem_cons.mp ha with hnew | ha
        · cases hnew
          simp only [Book.answer, epoch] at he ⊢
          omega
        · exact h.left.behind he a ha hpend heq
      old := fun he s' hs' => h.left.old he s' (hold s' hs') }
  · exact
    { h.right with
      answer_computed := fun a ha =>
        (h.right.answer_computed a ha).mono rfl fun _ hp => List.mem_cons_of_mem _ hp
      old := fun he s' hs' hle => (h.right.old he s' hs' hle).trans (le_max_left _ _) }
  · rcases h.cases with ⟨heq, _⟩ | ⟨hslot, _⟩ | ⟨_, he⟩
    · exact .inl heq
    · exact .inr (.inl hslot)
    · -- the peer is ahead: it overtook `s` before, so `s` comes out of order
      have := h.right.old he s hs hepoch
      omega

theorem Inv.activate (h : Inv x y clock) {sk : Skeleton C} (hslot : x.slot = some sk)
    (hlt : x.epoch < y.epoch) : Inv (x.install sk) y clock := by
  obtain ⟨heq, hy⟩ : sk = y.live ∧ y.epoch = x.epoch + 1 := by
    rcases h.cases with ⟨_, he⟩ | ⟨_, he⟩ | ⟨hs, he⟩
    · omega
    · omega
    · rw [hslot] at hs
      exact ⟨Option.some.inj hs, he⟩
  subst heq
  have hepoch : (x.install y.live).epoch = y.epoch := rfl
  refine ⟨?_, ?_, .inl rfl⟩
  · exact
    { h.left with
      slot_epoch := by
        rintro _ ⟨⟩
      step_epoch := by
        intro s hs
        have := h.left.step_epoch s hs
        omega
      answer_epoch := by
        intro a ha
        have := h.left.answer_epoch a ha
        omega
      held := by
        intro a ha _ _ he
        have := h.left.answer_epoch a ha
        omega
      behind := by
        intro he
        omega
      old := by
        intro he
        omega }
  · exact
    { h.right with
      behind := by
        intro he
        omega
      old := by
        intro he
        omega }

theorem Inv.finish (hC : C.IdealSteps) (h : Inv x y clock) {st : RatchetStep C}
    (hpend : x.pend = some st) {a : AnswerPdu C} (ha : Payload.answer a ∈ y.sent)
    {kem : C.KemShared}
    (hconf : C.ratchetConfirm
      ((stepOut x.live.1 x.live.2.1 (C.diffieHellman st.xSecret a.xPublic) kem).firstKey x.dir) =
        a.confirm) :
    Inv (x.drop.install
      (stepOut x.live.1 x.live.2.1 (C.diffieHellman st.xSecret a.xPublic) kem).skeleton)
      y clock := by
  obtain ⟨s, sec, kem', hs, hstamp, hpub, hprep, hconf'⟩ := h.right.answer_computed a ha
  -- the tag matches, so both ends started from one root and one pair of secrets
  rw [hconf', ← h.left.dir] at hconf
  obtain ⟨hbase, hroot, hdh, hkem⟩ :=
    firstKey_stepOut_inj hC x.dir (hC.ratchetConfirm_inj _ _ hconf)
  have hlive : (stepOut x.live.1 x.live.2.1 (C.diffieHellman st.xSecret a.xPublic) kem).skeleton =
      a.prepared := by
    rw [hprep, hbase, hroot, hdh, hkem]
  rw [hlive]
  -- and the answer is to the step waited on
  have hcur : a.stamp = x.lastBegun := by
    obtain ⟨s', hs', hnewest, hpub'⟩ := h.left.pend st hpend
    obtain ⟨secS, hsecS⟩ := h.left.step_public s hs
    rw [hpub, hsecS, hC.dh_comm sec secS] at hdh
    have hsame := hC.dh_mismatch _ _ _ hdh
    rw [← hstamp, ← hnewest]
    refine h.left.step_unique s s' hs hs' ?_
    rw [hsecS, hpub', RatchetStep.xPublicBytes, hsame]
  have hsome : x.pend.isSome := by
    rw [hpend]
    rfl
  have hbase' : a.baseEpoch = x.epoch := hbase.symm
  have hle := h.right.answer_epoch a ha
  have hlevel : x.epoch = y.epoch ∧ y.slot = some a.prepared := by
    rcases h.cases with ⟨_, he⟩ | ⟨_, he⟩ | ⟨_, he⟩
    · exact ⟨he, h.right.held a ha hsome hcur (by omega)⟩
    · omega
    · exact absurd hbase' (h.right.behind he a ha hsome hcur)
  obtain ⟨hxy, hslot⟩ := hlevel
  have hepoch : (x.drop.install a.prepared).epoch = x.epoch + 1 := by
    have := h.right.slot_epoch _ hslot
    simp only [install, epoch] at this ⊢
    simp only [epoch] at hxy
    omega
  -- the peer cannot be waiting for an answer of ours as well
  have hnone : ∀ b, Payload.answer b ∈ x.sent → y.pend.isSome → b.stamp ≠ y.lastBegun := by
    intro b hb hy heq
    have hx₁ := h.left.cross hsome
    have hy₁ := h.right.cross hy
    have hb₁ := (h.left.answer_stamp b hb).2
    have ha₁ := (h.right.answer_stamp a ha).2
    omega
  refine ⟨?_, ?_, .inr (.inl hslot)⟩
  · exact
    { h.drop.left with
      slot_epoch := by
        rintro _ ⟨⟩
      step_epoch := by
        intro s hs
        have := h.left.step_epoch s hs
        omega
      answer_epoch := by
        intro b hb
        have := h.left.answer_epoch b hb
        omega
      held := by
        intro b hb _ _ he
        have := h.left.answer_epoch b hb
        omega
      behind := fun _ b hb hy heq => absurd heq (hnone b hb hy)
      old := by
        intro _ s' hs' _
        have h₁ := h.left.step_stamp s' hs'
        have h₂ := (h.right.answer_stamp a ha).1
        omega }
  · exact
    { h.drop.right with
      behind := by
        intro he
        omega
      old := by
        intro he
        omega }

end Book

end Vantablack.Session
