import Vantablack.Session.OneChain
import Vantablack.Symbolic

/-!
Replay protection of one receiver. `ingest` and `handle_pkt` run as tasks of their own,
so between any two of `plan_open`, `commit_open`, `activate_epoch` and `check_inbound` of
one task there may be steps of every other task. A task is modelled by the stage it has
come to; what it does there is at most one operation on its session.

A legacy message is opened in `handle_pkt` (plan, try the key, commit). A ShardSec message
is opened shard by shard in `ingest`, which commits nothing; `handle_pkt` gets the
plaintext and makes up for the commit, whether or not a plan is still to be had.
-/

namespace Vantablack.Receive

open Session List

variable {C : Crypto} {ι : Type} [DecidableEq ι]

/-- A message of the peer, as its frames name and seal it. -/
structure Msg (C : Crypto) where
  direction : NonceDirection
  epoch : ℕ
  counter : ℕ
  key : C.Key
  dummy : Bool
  shardsec : Bool
  deriving DecidableEq

/-- How far an invocation of `handle_pkt` has come. -/
inductive Stage (C : Crypto) where
  -- legacy: plan the peer's direction, then ours; commit the plan whose key fitted
  | planPeer
  | planOurs
  | commit (direction : NonceDirection) (plan : OpenPlan C.Key)
  -- ShardSec: the same, but nothing depends on a plan being found
  | resyncPeer
  | resyncOurs
  | resync (direction : NonceDirection) (plan : OpenPlan C.Key)
  | opened
  | replay
  | window
  /-- Past the replay stage. -/
  | dispatched
  | dropped

/-- The message has been authenticated and not been dropped since. -/
def Stage.authentic : Stage C → Bool
  | .planPeer | .planOurs | .dropped => false
  | _ => true

def Stage.isDispatched : Stage C → Bool
  | .dispatched => true
  | _ => false

/-- An invocation of `handle_pkt` on a message of the session `session`. -/
structure Task (C : Crypto) (ι : Type) where
  session : ι
  msg : Msg C
  stage : Stage C

namespace Task

def sameMessage (t t' : Task C ι) : Bool :=
  t.session = t'.session && t.msg.direction = t'.msg.direction && t.msg.epoch = t'.msg.epoch &&
    t.msg.counter = t'.msg.counter

/-- Authenticated, and neither dropped nor going to be. -/
def inPlay (t : Task C ι) : Bool := t.stage.authentic && !t.msg.dummy

/-- Authenticated, and the chain it was sealed on does not give its key any more. -/
def keySpent (t : Task C ι) : Bool :=
  match t.stage with
  | .resync direction _ => direction ≠ t.msg.direction
  | .resyncOurs | .opened | .replay | .window | .dispatched => true
  | _ => false

/-- The next stage, and what is done to the session on the way there. -/
def next (t : Task C ι) (s : Session C) (now : ℕ) : Option (Stage C × Option (SessionOp C)) :=
  let planFor (direction : NonceDirection) := s.planOpen t.msg.epoch direction t.msg.counter
  -- the AEAD: a plan opens the frame if it has its key and its direction
  let fits (direction : NonceDirection) :=
    (planFor direction).key? = some t.msg.key ∧ direction = t.msg.direction
  let peers := s.sealDirection.peerDirection
  let ours := s.sealDirection
  match t.stage with
  | .planPeer =>
      if fits peers then some (.commit peers (planFor peers), none) else some (.planOurs, none)
  | .planOurs =>
      if fits ours then some (.commit ours (planFor ours), none) else some (.dropped, none)
  | .commit direction plan => some (.opened, some (.commitOpen t.msg.epoch direction plan))
  | .resyncPeer =>
      if (planFor peers).key?.isSome then some (.resync peers (planFor peers), none)
      else some (.resyncOurs, none)
  | .resyncOurs =>
      if (planFor ours).key?.isSome then some (.resync ours (planFor ours), none)
      else some (.opened, none)
  | .resync direction plan => some (.opened, some (.commitOpen t.msg.epoch direction plan))
  | .opened =>
      if t.msg.dummy then some (.dropped, none)
      else if t.msg.epoch > s.epoch then
        some (.replay, some (.activateEpoch now t.msg.epoch))
      else some (.replay, none)
  | .replay =>
      -- `is_retired`
      if t.msg.epoch < s.epoch then some (.dispatched, none) else some (.window, none)
  | .window =>
      let op := SessionOp.checkInbound now t.msg.counter
      if (s.checkInbound now t.msg.counter).1 then
        some (.dispatched, some op)
      else some (.dropped, some op)
  | .dispatched | .dropped => none

end Task

/-- The receiver: its sessions, the opened shards in the spool and the invocations so far. -/
structure Receiver (C : Crypto) (ι : Type) where
  sessions : ι → Session C
  spool : List (ι × Msg C × ℕ)
  tasks : List (Task C ι)

inductive ReceiverAct (C : Crypto) (ι : Type) where
  /-- Any operation of another part of the node on a session. -/
  | op (i : ι) (op : SessionOp C)
  /-- A legacy message has been put together from its frames. -/
  | arrive (i : ι) (msg : Msg C)
  /-- A ShardSec shard arrives. -/
  | ingest (i : ι) (msg : Msg C) (index : ℕ)
  /-- The `k`-th invocation takes its next step. -/
  | run (k now : ℕ)

namespace Receiver

def start (masterKey : ι → C.Key) (peer : ι → String) (role : ι → SessionRole) (now : ι → ℕ) :
    Receiver C ι :=
  { sessions := fun i => newWithRole (masterKey i) (peer i) (role i) (now i)
    spool := [], tasks := [] }

def setSession (w : Receiver C ι) (i : ι) (s : Session C) : Receiver C ι :=
  { w with sessions := Function.update w.sessions i s }

/-- Another shard of the message has been opened and waits. -/
def completes (w : Receiver C ι) (i : ι) (msg : Msg C) (index : ℕ) : Bool :=
  w.spool.any fun e => e.1 = i && e.2.1 = msg && e.2.2 ≠ index

/-- The shard opens with the key its plan gives now. -/
def opensShard (w : Receiver C ι) (i : ι) (msg : Msg C) : Bool :=
  ((w.sessions i).planOpen msg.epoch msg.direction msg.counter).key? = some msg.key

def step (w : Receiver C ι) : ReceiverAct C ι → Option (Receiver C ι)
  | .op i op => some (w.setSession i (op.run (w.sessions i)))
  | .arrive i msg =>
      if msg.shardsec then none
      else some { w with tasks := w.tasks ++ [⟨i, msg, .planPeer⟩] }
  | .ingest i msg index =>
      if !msg.shardsec || index > 2 || !w.opensShard i msg then none
      else if w.completes i msg index then
        some { w with
          spool := w.spool.filter fun e => !(e.1 = i && e.2.1 = msg)
          tasks := w.tasks ++ [⟨i, msg, .resyncPeer⟩] }
      else some { w with spool := w.spool ++ [(i, msg, index)] }
  | .run k now =>
      match w.tasks[k]? with
      | none => none
      | some t =>
          match t.next (w.sessions t.session) now with
          | none => none
          | some (stage, op) =>
              let w := { w with tasks := w.tasks.set k { t with stage := stage } }
              match op with
              | none => some w
              | some op => some (w.setSession t.session (op.run (w.sessions t.session)))

/-- No two invocations of one non-dummy message went past the replay stage. -/
def AtMostOnce (w : Receiver C ι) : Prop :=
  ∀ (j k : ℕ) (t t' : Task C ι), w.tasks[j]? = some t → w.tasks[k]? = some t' →
    t.sameMessage t' = true → t.stage.isDispatched = true → t'.stage.isDispatched = true → j = k

/-! ### Orderly runs -/

/-- The counters of an epoch of a session whose keys are spent. -/
def spent (w : Receiver C ι) (i : ι) (epoch : ℕ) : List ℕ :=
  (w.tasks.filter fun t => t.session = i ∧ t.msg.epoch = epoch ∧ t.keySpent = true).map
    (·.msg.counter)

/-- The frames are the peer's. At the last counter a chain saturates. -/
def fromPeer (w : Receiver C ι) (i : ι) (msg : Msg C) : Bool :=
  msg.direction = (w.sessions i).sealDirection.peerDirection && msg.counter < u64Max

/-- No message that was opened in the prepared epoch waits for it to be installed. -/
def settled (w : Receiver C ι) (i : ι) : Bool :=
  w.tasks.all fun t =>
    !(t.session = i && t.stage.authentic && (w.sessions i).epoch < t.msg.epoch)

/-- When the epoch of the session changes, no message of the epoch that retires has two copies in
play. -/
def oneCopy (w : Receiver C ι) (i : ι) (s : Session C) : Bool :=
  s.epoch = (w.sessions i).epoch || decide (w.tasks.Pairwise fun t t' =>
    ¬ (t.session = i ∧ t.msg.epoch = (w.sessions i).epoch ∧ t.sameMessage t' = true ∧
      t.inPlay = true ∧ t'.inPlay = true))

/-- No other copy of a message of a retired epoch is between its plan and its commit. -/
def opensAlone (w : Receiver C ι) (t : Task C ι) : Bool :=
  (w.sessions t.session).epoch ≤ t.msg.epoch ||
    w.tasks.all fun t' => !(t'.sameMessage t && t'.inPlay && !t'.keySpent)

/-- The commit gives no spent counter its key back: a forward plan caches none if it is installed,
and finds the key of its own counter gone if it was overtaken. -/
def harmless (w : Receiver C ι) (t : Task C ι) (plan : OpenPlan C.Key) : Bool :=
  match (w.sessions t.session).ratchet.chainAt t.msg.epoch t.msg.direction, plan with
  | some m, .forward _ _ newPos cache =>
      if m.pos < newPos then cache.all fun e => e.1 ∉ w.spent t.session t.msg.epoch
      else (m.skipped[t.msg.counter]?).isNone
  | _, _ => true

/-- The order of the steps in which keys serve once where the window does not: what is committed is
not stale, other parts of the node commit nothing and derive no epoch while a message of it is in
work, a message of a retired epoch is opened by one copy at a time, and one of the live epoch has no
second copy in play when that epoch retires. -/
def orderly (w : Receiver C ι) : ReceiverAct C ι → Bool
  | .op _ (.commitOpen ..) => false
  | .op i op => (!op.seeds || w.settled i) && w.oneCopy i (op.run (w.sessions i))
  | .arrive i msg => w.fromPeer i msg
  | .ingest i msg index =>
      w.fromPeer i msg && (!w.completes i msg index || w.opensAlone ⟨i, msg, .resyncPeer⟩)
  | .run k now =>
      match w.tasks[k]? with
      | none => true
      | some t =>
          match t.next (w.sessions t.session) now with
          | some (.commit .., _) => w.opensAlone t
          | some (_, some (.commitOpen _ direction plan)) =>
              direction ≠ t.msg.direction || w.harmless t plan
          | some (_, some op) => w.oneCopy t.session (op.run (w.sessions t.session))
          | _ => true

/-! ### What is known of one task -/

/-- The chain of the peer's direction in an epoch. -/
def inbound (s : Session C) (epoch : ℕ) : Option (MsgChain C.Key) :=
  s.ratchet.chainAt epoch s.sealDirection.peerDirection

/-- A plan for a counter, as the chain once gave it. -/
def PlanFor (chain : Option (MsgChain C.Key)) (counter : ℕ) : OpenPlan C.Key → Prop
  | .forward _ _ newPos cache =>
      newPos = min (counter + 1) u64Max ∧ ∀ e ∈ cache, e.1 < counter
  | .cached c _ => c = counter ∧ ∀ m ∈ chain, counter < m.pos
  | .refused => False

/-- What a message has gone through before a stage. -/
def Reached (s : Session C) (msg : Msg C) : Stage C → Prop
  | .commit direction plan =>
      direction = msg.direction ∧ PlanFor (inbound s msg.epoch) msg.counter plan
  | .resyncPeer => ∀ m ∈ inbound s msg.epoch, msg.counter ≤ m.pos + maxSkip
  | .resync direction plan =>
      direction = msg.direction → PlanFor (inbound s msg.epoch) msg.counter plan
  | .replay | .window => msg.epoch ≤ s.epoch ∧ msg.dummy = false
  | .dispatched => (msg.epoch ≤ s.epoch ∧ msg.dummy = false) ∧
      (msg.epoch = s.epoch → s.guard.Spent msg.counter)
  | _ => True

structure TaskOk (s : Session C) (t : Task C ι) : Prop where
  peers : t.msg.direction = s.sealDirection.peerDirection
  below : t.msg.counter < u64Max
  held : t.stage.authentic = true →
    t.msg.epoch ≤ s.epoch ∨ s.preparedEpoch = some t.msg.epoch
  reached : Reached s t.msg t.stage

/-- What holds in every state of an orderly run. A spent key is gone from its chain, and of the
copies of a message in play there is one if its epoch has retired, and one that is dispatched
otherwise. -/
structure Inv (w : Receiver C ι) : Prop where
  numbered : ∀ i, (w.sessions i).ratchet.Numbered
  chains : ∀ i epoch, ∀ m ∈ inbound (w.sessions i) epoch, m.Spends { c | c ∈ w.spent i epoch }
  tasks : ∀ t ∈ w.tasks, TaskOk (w.sessions t.session) t
  alone : ∀ (j k : ℕ) (t t' : Task C ι), j ≠ k → w.tasks[j]? = some t → w.tasks[k]? = some t' →
    t.sameMessage t' = true → t.inPlay = true → t'.inPlay = true →
      (w.sessions t.session).epoch ≤ t.msg.epoch ∧
        (t.stage.isDispatched = true → t'.stage.isDispatched = false)

variable {t : Task C ι}

theorem sameMessage_iff {t' : Task C ι} :
    t.sameMessage t' = true ↔ t.session = t'.session ∧ t.msg.direction = t'.msg.direction ∧
      t.msg.epoch = t'.msg.epoch ∧ t.msg.counter = t'.msg.counter := by
  simp [Task.sameMessage, and_assoc]

theorem sameMessage_comm (t t' : Task C ι) : t.sameMessage t' = t'.sameMessage t := by
  rw [Bool.eq_iff_iff, sameMessage_iff, sameMessage_iff]
  constructor <;> rintro ⟨h₁, h₂, h₃, h₄⟩ <;> exact ⟨h₁.symm, h₂.symm, h₃.symm, h₄.symm⟩

variable {w : Receiver C ι} {epoch : ℕ}

theorem mem_spent {i : ι} {c : ℕ} :
    c ∈ w.spent i epoch ↔ ∃ t ∈ w.tasks, t.session = i ∧ t.msg.epoch = epoch ∧
      t.keySpent = true ∧ t.msg.counter = c := by
  simp [spent, and_assoc]

variable {stage : Stage C} {s : Session C}

omit [DecidableEq ι] in
theorem TaskOk.at (h : TaskOk s t) (hstage : t.stage = stage) : Reached s t.msg stage :=
  hstage ▸ h.reached

omit [DecidableEq ι] in
theorem isDispatched_iff : stage.isDispatched = true ↔ stage = .dispatched := by
  cases stage <;> simp [Stage.isDispatched]

omit [DecidableEq ι] in
theorem authentic_of_keySpent (h : t.keySpent = true) : t.stage.authentic = true := by
  unfold Task.keySpent at h
  cases hstage : t.stage <;> rw [hstage] at h <;> first | rfl | cases h

theorem Inv.atMostOnce (h : Inv w) : w.AtMostOnce := by
  intro j k t t' hj hk hsame hd hd'
  by_contra hne
  have hplay : ∀ u ∈ w.tasks, u.stage.isDispatched = true → u.inPlay = true := by
    intro u hu hdispatched
    have hstage := isDispatched_iff.mp hdispatched
    have hdummy := ((h.tasks u hu).at hstage).1.2
    rw [Task.inPlay, hstage, hdummy]
    rfl
  have hone := (h.alone j k t t' hne hj hk hsame (hplay t (mem_of_getElem? hj) hd)
    (hplay t' (mem_of_getElem? hk) hd')).2 hd
  rw [hone] at hd'
  cases hd'

theorem inv_start (masterKey : ι → C.Key) (peer : ι → String) (role : ι → SessionRole)
    (now : ι → ℕ) : Inv (start masterKey peer role now) where
  numbered i := SessionRatchet.numbered_new (masterKey i)
  chains i epoch m hm := by
    have hseed : ∃ key, m = .seed key := by
      by_cases he : epoch = 0
      · subst he
        cases hrole : role i <;> simp only [start, inbound, hrole] at hm <;>
          exact ⟨_, (Option.some.inj hm).symm⟩
      · unfold inbound at hm
        rw [SessionRatchet.chainAt_retired rfl he] at hm
        cases hm
    obtain ⟨key, rfl⟩ := hseed
    exact MsgChain.spends_seed key (by simp [spent, start])
  tasks := by simp [start]
  alone := by simp [start]

/-! ### What a chain says about a counter -/

omit [DecidableEq ι] in
theorem planOpen_inbound (s : Session C) (epoch counter : ℕ) :
    s.planOpen epoch s.sealDirection.peerDirection counter =
      (inbound s epoch).elim .refused (·.plan C.kdfCk counter) :=
  SessionRatchet.planOpen_eq ..

variable {counter : ℕ}

theorem planFor_planOpen
    (hkey : (s.planOpen epoch s.sealDirection.peerDirection counter).key?.isSome = true) :
    PlanFor (inbound s epoch) counter (s.planOpen epoch s.sealDirection.peerDirection counter) := by
  rw [planOpen_inbound] at hkey ⊢
  cases hchain : inbound s epoch with
  | none =>
      rw [hchain] at hkey
      cases hkey
  | some m =>
      rw [hchain] at hkey
      simp only [Option.elim_some] at hkey ⊢
      cases hplan : m.plan C.kdfCk counter with
      | forward key newChain newPos cache =>
          obtain ⟨-, hnew, hcache⟩ := MsgChain.plan_forward C.kdfCk hplan
          exact ⟨hnew, fun e he => (hcache e he).2⟩
      | cached c key =>
          obtain ⟨rfl, hlt, -⟩ := MsgChain.plan_cached C.kdfCk hplan
          refine ⟨rfl, fun m' hm' => ?_⟩
          cases hm'
          exact hlt
      | refused =>
          rw [hplan] at hkey
          cases hkey

theorem near_planOpen
    (hkey : (s.planOpen epoch s.sealDirection.peerDirection counter).key?.isSome = true) :
    ∀ m ∈ inbound s epoch, counter ≤ m.pos + maxSkip := by
  intro m hm
  rw [planOpen_inbound, show inbound s epoch = some m from hm] at hkey
  by_contra hfar
  have hrefused : m.plan C.kdfCk counter = .refused := by
    rw [MsgChain.plan, if_neg (by omega), if_pos (by omega)]
  simp [hrefused] at hkey

theorem held_planOpen (h : s.ratchet.Numbered)
    (hkey : (s.planOpen epoch s.sealDirection.peerDirection counter).key?.isSome = true) :
    epoch ≤ s.epoch ∨ s.preparedEpoch = some epoch := by
  rw [planOpen_inbound] at hkey
  cases hchain : inbound s epoch with
  | none =>
      rw [hchain] at hkey
      cases hkey
  | some m => exact h.held hchain

/-- A key that was to be had and is not any more is spent. -/
theorem spends_missed {taken : Set ℕ}
    (hnone : (s.planOpen epoch s.sealDirection.peerDirection counter).key?.isSome = false)
    (hnear : ∀ m ∈ inbound s epoch, counter ≤ m.pos + maxSkip)
    (h : ∀ m ∈ inbound s epoch, m.Spends taken) :
    ∀ m ∈ inbound s epoch, m.Spends (insert counter taken) := by
  intro m hm
  rw [planOpen_inbound, show inbound s epoch = some m from hm] at hnone
  obtain ⟨hlt, hgone⟩ := MsgChain.passed_of_no_key C.kdfCk hnone (hnear m hm)
  refine ⟨(h m hm).skipped_lt, ?_⟩
  rintro c (rfl | hc)
  · exact ⟨hlt, hgone⟩
  · exact (h m hm).spent c hc

/-! ### A session moves on -/

/-- What the invariant asks of the session that takes the place of one. -/
structure Follows (w : Receiver C ι) (i : ι) (s : Session C) : Prop where
  direction : s.sealDirection = (w.sessions i).sealDirection
  numbered : s.ratchet.Numbered
  epoch_le : (w.sessions i).epoch ≤ s.epoch
  epoch_next : s.epoch ≤ (w.sessions i).epoch + 1
  held : ∀ epoch, (w.sessions i).preparedEpoch = some epoch →
    epoch ≤ s.epoch ∨ s.preparedEpoch = some epoch
  guard : s.epoch = (w.sessions i).epoch →
    ∀ counter, (w.sessions i).guard.Spent counter → s.guard.Spent counter
  chains : ∀ epoch, ∀ m ∈ inbound s epoch, m.Spends { c | c ∈ w.spent i epoch }
  further : ∀ epoch, ∀ m ∈ inbound s epoch,
    (∃ old ∈ inbound (w.sessions i) epoch, old.pos ≤ m.pos) ∨
      ((w.sessions i).epoch < epoch ∧ ∀ t ∈ w.tasks, t.session = i → t.stage.authentic = true →
        t.msg.epoch ≤ (w.sessions i).epoch)
  oneCopy : w.oneCopy i s = true

theorem TaskOk.follow (h : TaskOk (w.sessions t.session) t) (hs : Follows w t.session s)
    (ht : t ∈ w.tasks) : TaskOk s t where
  peers := by rw [hs.direction, h.peers]
  below := h.below
  held hauth := by
    rcases h.held hauth with hle | hprepared
    · exact .inl (hle.trans hs.epoch_le)
    · exact hs.held _ hprepared
  reached := by
    have hold := h.reached
    -- the chain of the message has not gone back
    have hfurther : t.stage.authentic = true → ∀ m ∈ inbound s t.msg.epoch,
        ∃ old ∈ inbound (w.sessions t.session) t.msg.epoch, old.pos ≤ m.pos :=
      fun hauth m hm => (hs.further _ m hm).resolve_right fun hnew =>
        absurd (hnew.2 t ht rfl hauth) (not_le.mpr hnew.1)
    have hplan : t.stage.authentic = true → ∀ plan,
        PlanFor (inbound (w.sessions t.session) t.msg.epoch) t.msg.counter plan →
          PlanFor (inbound s t.msg.epoch) t.msg.counter plan := by
      rintro hauth (_ | _ | _) hfor
      case cached =>
        refine ⟨hfor.1, fun m hm => ?_⟩
        obtain ⟨old, hin, hle⟩ := hfurther hauth m hm
        exact (hfor.2 old hin).trans_le hle
      all_goals exact hfor
    cases hstage : t.stage <;> rw [hstage] at hold hplan hfurther
    case commit => exact ⟨hold.1, hplan rfl _ hold.2⟩
    case resync => exact fun hdirection => hplan rfl _ (hold hdirection)
    case resyncPeer =>
      intro m hm
      obtain ⟨old, hin, hle⟩ := hfurther rfl m hm
      exact (hold old hin).trans (Nat.add_le_add_right hle _)
    case replay | window => exact ⟨hold.1.trans hs.epoch_le, hold.2⟩
    case dispatched =>
      refine ⟨⟨hold.1.1.trans hs.epoch_le, hold.1.2⟩, fun hepoch => ?_⟩
      have hsame : s.epoch = (w.sessions t.session).epoch :=
        le_antisymm (hepoch ▸ hold.1.1) hs.epoch_le
      exact hs.guard hsame _ (hold.2 (hepoch.trans hsame))
    all_goals trivial

variable {k : ℕ}

theorem Follows.alone {t' : Task C ι} {j : ℕ} (hs : Follows w t.session s) (hne : j ≠ k)
    (hj : w.tasks[j]? = some t) (hk : w.tasks[k]? = some t') (hsame : t.sameMessage t' = true)
    (hplay : t.inPlay = true) (hplay' : t'.inPlay = true)
    (hle : (w.sessions t.session).epoch ≤ t.msg.epoch) : s.epoch ≤ t.msg.epoch := by
  by_cases hepoch : s.epoch = (w.sessions t.session).epoch
  · rwa [hepoch]
  have hone := hs.oneCopy
  rw [Receiver.oneCopy, decide_eq_false hepoch, Bool.false_or, decide_eq_true_iff,
    pairwise_iff_getElem] at hone
  obtain ⟨hjlen, rfl⟩ := List.getElem?_eq_some_iff.mp hj
  obtain ⟨hklen, rfl⟩ := List.getElem?_eq_some_iff.mp hk
  have hretires : w.tasks[j].msg.epoch ≠ (w.sessions w.tasks[j].session).epoch := by
    intro hlive
    obtain ⟨hsession, -, hmsg, -⟩ := sameMessage_iff.mp hsame
    rcases Nat.lt_or_gt_of_ne hne with hlt | hlt
    · exact hone j k hjlen hklen hlt ⟨rfl, hlive, hsame, hplay, hplay'⟩
    · rw [sameMessage_comm] at hsame
      exact hone k j hklen hjlen hlt ⟨hsession.symm, hmsg.symm.trans hlive, hsame, hplay', hplay⟩
  have := hs.epoch_next
  omega

theorem Inv.setSession (h : Inv w) {i : ι} (hs : Follows w i s) : Inv (w.setSession i s) where
  numbered j := by
    by_cases hj : j = i
    · subst hj
      simpa [Receiver.setSession] using hs.numbered
    · simpa [Receiver.setSession, hj] using h.numbered j
  chains j epoch m hm := by
    by_cases hj : j = i
    · subst hj
      exact hs.chains epoch m (by simpa [Receiver.setSession] using hm)
    · exact h.chains j epoch m (by simpa [Receiver.setSession, hj] using hm)
  tasks t ht := by
    by_cases hi : t.session = i
    · subst hi
      simpa [Receiver.setSession] using (h.tasks t ht).follow hs ht
    · simpa [Receiver.setSession, hi] using h.tasks t ht
  alone j k t t' hne hj hk hsame hplay hplay' := by
    obtain ⟨hle, hone⟩ := h.alone j k t t' hne hj hk hsame hplay hplay'
    refine ⟨?_, hone⟩
    by_cases hi : t.session = i
    · subst hi
      simpa [Receiver.setSession] using hs.alone hne hj hk hsame hplay hplay' hle
    · simpa [Receiver.setSession, hi] using hle

theorem peerDirection_ne (direction : NonceDirection) : direction.peerDirection ≠ direction := by
  cases direction <;> decide

theorem Inv.follows (h : Inv w) (i : ι) (op : SessionOp C)
    (hop : ∀ epoch direction plan, op ≠ .commitOpen epoch direction plan)
    (hseeds : op.seeds = true → w.settled i = true)
    (hone : w.oneCopy i (op.run (w.sessions i)) = true) : Follows w i (op.run (w.sessions i)) := by
  have hslot : SlotNext (w.sessions i) := (h.numbered i).pending
  have hdirection := run_sealDirection (w.sessions i) op
  have hchain : ∀ epoch, ∀ m ∈ inbound (op.run (w.sessions i)) epoch,
      m ∈ inbound (w.sessions i) epoch ∨ w.settled i = true ∧
        (w.sessions i).epoch < epoch ∧ ∃ key, m = .seed key := by
    intro epoch m hm
    unfold inbound at hm ⊢
    rw [hdirection] at hm
    exact (chainAt_run hslot hop (peerDirection_ne _) hm).imp_right
      fun hnew => ⟨hseeds hnew.1, hnew.2⟩
  have hsettled : w.settled i = true → ∀ t ∈ w.tasks, t.session = i → t.stage.authentic = true →
      t.msg.epoch ≤ (w.sessions i).epoch := by
    intro hall t ht hi hauth
    have := all_eq_true.mp hall t ht
    simpa [hi, hauth] using this
  constructor
  case direction => exact hdirection
  case numbered => exact (h.numbered i).session op
  case held => exact fun epoch hprepared => (h.numbered i).held_run op hprepared
  case oneCopy => exact hone
  case chains =>
    intro epoch m hm
    rcases hchain epoch m hm with hold | ⟨hall, hlt, key, rfl⟩
    · exact h.chains i epoch m hold
    · refine MsgChain.spends_seed key (Set.eq_empty_of_forall_notMem fun c hc => ?_)
      obtain ⟨t, ht, hi, rfl, hspent, -⟩ := mem_spent.mp hc
      exact absurd (hsettled hall t ht hi (authentic_of_keySpent hspent)) (not_le.mpr hlt)
  case further =>
    intro epoch m hm
    rcases hchain epoch m hm with hold | ⟨hall, hlt, -⟩
    · exact .inl ⟨m, hold, le_rfl⟩
    · exact .inr ⟨hlt, hsettled hall⟩
  all_goals
    cases epochMove_run hslot op with
    | stay hepoch hwindow _ =>
        first | exact hepoch.ge | exact hepoch.le.trans (Nat.le_succ _) | exact fun _ => hwindow
    | advance hepoch _ =>
        first | exact hepoch.ge.trans' (Nat.le_succ _) | exact hepoch.le | skip
        try exact fun hsame => absurd (hepoch.symm.trans hsame) (Nat.succ_ne_self _)

theorem sealDirection_commitOpen (s : Session C) (epoch : ℕ) (direction : NonceDirection)
    (plan : OpenPlan C.Key) : (s.commitOpen epoch direction plan).sealDirection = s.sealDirection :=
  rfl

variable {plan : OpenPlan C.Key}

/-- A harmless commit spends the counter of the message. -/
theorem Inv.spends_commit (h : Inv w) (ht : t ∈ w.tasks)
    (hplan : t.stage = .commit t.msg.direction plan ∨ t.stage = .resync t.msg.direction plan)
    (hharmless : w.harmless t plan = true) :
    ∀ m ∈ inbound ((w.sessions t.session).commitOpen t.msg.epoch t.msg.direction plan) t.msg.epoch,
      m.Spends (insert t.msg.counter { c | c ∈ w.spent t.session t.msg.epoch }) := by
  intro m hm
  have hok := h.tasks t ht
  have hbelow := hok.below
  have hfor : PlanFor (inbound (w.sessions t.session) t.msg.epoch) t.msg.counter plan :=
    hplan.elim (fun hstage => (hok.at hstage).2) fun hstage => hok.at hstage rfl
  unfold inbound at hm hfor
  rw [sealDirection_commitOpen, ← hok.peers, Session.commitOpen] at hm
  rw [← hok.peers] at hfor
  obtain ⟨old, hold, rfl⟩ := Option.map_eq_some_iff.mp
    ((SessionRatchet.chainAt_commitOpen_self _ _ _ plan _).symm.trans hm)
  rw [if_pos rfl]
  have hspends : old.Spends { c | c ∈ w.spent t.session t.msg.epoch } := by
    refine h.chains t.session t.msg.epoch old ?_
    unfold inbound
    rwa [← hok.peers]
  cases plan with
  | refused => exact hfor.elim
  | cached c key =>
      obtain ⟨rfl, hlt⟩ := hfor
      exact hspends.commit_cached (hlt old hold)
  | forward key newChain newPos cache =>
      obtain ⟨rfl, hcache⟩ := hfor
      simp only [Receiver.harmless, hold] at hharmless
      refine hspends.commit_forward (c := t.msg.counter) ?_ ?_ ?_ (by omega)
      · intro e he
        have := hcache e he
        omega
      · split at hharmless
        · rename_i hpos
          rw [if_pos hpos]
          simpa using hharmless
        · rename_i hpos
          rw [if_neg hpos]
          simpa using hharmless
      · rintro d (rfl | hd)
        · exact .inr ⟨rfl, by omega⟩
        · exact .inl hd

theorem Inv.follows_commit (h : Inv w) (ht : t ∈ w.tasks) {direction : NonceDirection}
    (hplan : t.stage = .commit direction plan ∨ t.stage = .resync direction plan)
    (hharmless : direction ≠ t.msg.direction ∨ w.harmless t plan = true) :
    Follows w t.session ((w.sessions t.session).commitOpen t.msg.epoch direction plan) := by
  have hslot : SlotNext (w.sessions t.session) := (h.numbered t.session).pending
  have hok := h.tasks t ht
  have hepoch : ((w.sessions t.session).commitOpen t.msg.epoch direction plan).epoch =
      (w.sessions t.session).epoch :=
    congrArg Prod.fst ((w.sessions t.session).ratchet.commitOpen_skeleton ..).1
  constructor
  case direction => rfl
  case numbered => exact (h.numbered t.session).commitOpen ..
  case epoch_le => exact hepoch.ge
  case epoch_next => exact hepoch.le.trans (Nat.le_succ _)
  case held =>
    exact fun epoch hprepared => (h.numbered t.session).held_run
      (.commitOpen t.msg.epoch direction plan) hprepared
  case guard => exact fun _ counter hspent => hspent
  case oneCopy => rw [Receiver.oneCopy, hepoch, decide_eq_true rfl, Bool.true_or]
  case further => exact fun epoch m hm => .inl (SessionRatchet.chainAt_commitOpen hm)
  case chains =>
    intro epoch m hm
    by_cases hdirection : direction = t.msg.direction
    · subst hdirection
      have hspends := h.spends_commit ht hplan (hharmless.resolve_left (absurd rfl))
      by_cases he : epoch = t.msg.epoch
      · subst he
        exact (hspends m hm).mono (Set.subset_insert _ _)
      · unfold inbound at hm
        rw [sealDirection_commitOpen, ← hok.peers, Session.commitOpen] at hm
        obtain ⟨old, hold, rfl⟩ := Option.map_eq_some_iff.mp
          ((SessionRatchet.chainAt_commitOpen_self _ _ _ plan _).symm.trans hm)
        rw [if_neg he]
        refine h.chains t.session epoch old ?_
        unfold inbound
        rwa [← hok.peers]
    · refine h.chains t.session epoch m ?_
      have hne : (w.sessions t.session).sealDirection.peerDirection ≠ direction := by
        rw [← hok.peers]
        exact Ne.symm hdirection
      exact (SessionRatchet.chainAt_commitOpen_ne _ _ hne plan epoch).symm.trans hm

/-! ### A task moves on -/

/-- An open plan shows that no other copy in play has spent the key. -/
theorem Inv.opens (h : Inv w)
    (hpeers : t.msg.direction = (w.sessions t.session).sealDirection.peerDirection)
    (hkey : ((w.sessions t.session).planOpen t.msg.epoch t.msg.direction
      t.msg.counter).key?.isSome = true) (halone : w.opensAlone t = true) :
    ∀ t' ∈ w.tasks, t'.sameMessage t = true →
      t'.inPlay = true → (w.sessions t.session).epoch ≤ t.msg.epoch := by
  intro t' ht' hsame hplay
  rcases Bool.or_eq_true_iff.mp halone with hlive | hnone
  · exact of_decide_eq_true hlive
  have hspent : t'.keySpent = true := by
    have := all_eq_true.mp hnone t' ht'
    simpa [hsame, hplay] using this
  obtain ⟨hi, -, he, hc⟩ := sameMessage_iff.mp hsame
  have hmem : t.msg.counter ∈ w.spent t.session t.msg.epoch :=
    mem_spent.mpr ⟨t', ht', hi, he, hspent, hc⟩
  rw [hpeers, planOpen_inbound] at hkey
  cases hchain : inbound (w.sessions t.session) t.msg.epoch with
  | none =>
      rw [hchain] at hkey
      cases hkey
  | some m =>
      have hrefused := (h.chains t.session t.msg.epoch m hchain).plan_refused C.kdfCk hmem
      simp [hchain, hrefused] at hkey

theorem Inv.append (h : Inv w) (hok : TaskOk (w.sessions t.session) t) (hspent : t.keySpent = false)
    (hstage : t.stage.isDispatched = false)
    (halone : t.inPlay = true → ∀ t' ∈ w.tasks, t'.sameMessage t = true → t'.inPlay = true →
      (w.sessions t.session).epoch ≤ t.msg.epoch) (spool : List (ι × Msg C × ℕ)) :
    Inv { w with spool := spool, tasks := w.tasks ++ [t] } := by
  have hsame : ∀ i epoch,
      Receiver.spent { w with spool := spool, tasks := w.tasks ++ [t] } i epoch =
        w.spent i epoch := by
    intro i epoch
    simp [spent, filter_append, hspent]
  have hget : ∀ (j : ℕ) (u : Task C ι), (w.tasks ++ [t])[j]? = some u →
      w.tasks[j]? = some u ∨ u = t ∧ j = w.tasks.length := by
    intro j u hj
    rw [getElem?_append] at hj
    split at hj
    · exact .inl hj
    · rename_i hlen
      obtain ⟨hz, hu⟩ := List.getElem?_eq_some_iff.mp hj
      simp only [length_singleton] at hz
      refine .inr ⟨?_, by omega⟩
      rw [← hu, getElem_singleton]
  refine ⟨h.numbered, ?_, ?_, ?_⟩
  · intro i epoch
    rw [hsame]
    exact h.chains i epoch
  · intro u hu
    rcases mem_append.mp hu with hold | hnew
    · exact h.tasks u hold
    · rw [mem_singleton.mp hnew]
      exact hok
  · intro j k u u' hne hj hk hmsg hplay hplay'
    rcases hget j u hj with hu | ⟨rfl, hjlen⟩
    · rcases hget k u' hk with hu' | ⟨rfl, -⟩
      · exact h.alone j k u u' hne hu hu' hmsg hplay hplay'
      · have hle := halone hplay' u (mem_of_getElem? hu) hmsg hplay
        obtain ⟨hi, -, he, -⟩ := sameMessage_iff.mp hmsg
        rw [← hi, ← he] at hle
        exact ⟨hle, fun _ => hstage⟩
    · rcases hget k u' hk with hu' | ⟨rfl, hklen⟩
      · rw [sameMessage_comm] at hmsg
        refine ⟨halone hplay u' (mem_of_getElem? hu') hmsg hplay', fun hd => ?_⟩
        rw [hstage] at hd
        cases hd
      · exact absurd (hjlen.trans hklen.symm) hne

theorem Inv.advance (h : Inv w) (hk : w.tasks[k]? = some t)
    (hok : TaskOk (w.sessions t.session) { t with stage := stage })
    (hspent : ({ t with stage := stage } : Task C ι).keySpent = true →
      ∀ m ∈ inbound (w.sessions t.session) t.msg.epoch,
        m.Spends (insert t.msg.counter { c | c ∈ w.spent t.session t.msg.epoch }))
    (halone : ({ t with stage := stage } : Task C ι).inPlay = true → ∀ (j : ℕ) (t' : Task C ι),
      j ≠ k → w.tasks[j]? = some t' → t'.sameMessage t = true → t'.inPlay = true →
        (w.sessions t.session).epoch ≤ t.msg.epoch ∧
          (stage.isDispatched = true → t'.stage.isDispatched = false)) :
    Inv { w with tasks := w.tasks.set k { t with stage := stage } } := by
  obtain ⟨hlen, -⟩ := List.getElem?_eq_some_iff.mp hk
  have hget : ∀ (j : ℕ) (u : Task C ι), (w.tasks.set k { t with stage := stage })[j]? = some u →
      j = k ∧ u = { t with stage := stage } ∨ j ≠ k ∧ w.tasks[j]? = some u := by
    intro j u hj
    by_cases hjk : j = k
    · subst hjk
      rw [getElem?_set_self hlen] at hj
      exact .inl ⟨rfl, (Option.some.inj hj).symm⟩
    · rw [getElem?_set_ne (Ne.symm hjk)] at hj
      exact .inr ⟨hjk, hj⟩
  refine ⟨h.numbered, ?_, ?_, ?_⟩
  · intro i epoch m hm
    by_cases hnew : i = t.session ∧ epoch = t.msg.epoch ∧
        ({ t with stage := stage } : Task C ι).keySpent = true
    · obtain ⟨rfl, rfl, hnow⟩ := hnew
      refine (hspent hnow m hm).mono fun c hc => ?_
      obtain ⟨u, hu, hi, he, hkey, rfl⟩ := mem_spent.mp hc
      rcases mem_or_eq_of_mem_set hu with hold | rfl
      · exact .inr (mem_spent.mpr ⟨u, hold, hi, he, hkey, rfl⟩)
      · exact .inl rfl
    · refine (h.chains i epoch m hm).mono fun c hc => ?_
      obtain ⟨u, hu, rfl, rfl, hkey, rfl⟩ := mem_spent.mp hc
      rcases mem_or_eq_of_mem_set hu with hold | rfl
      · exact mem_spent.mpr ⟨u, hold, rfl, rfl, hkey, rfl⟩
      · exact absurd ⟨rfl, rfl, hkey⟩ hnew
  · intro u hu
    rcases mem_or_eq_of_mem_set hu with hold | rfl
    · exact h.tasks u hold
    · exact hok
  · intro i j u u' hne hi hj hsame hplay hplay'
    rcases hget i u hi with ⟨rfl, rfl⟩ | ⟨hik, hu⟩
    · rcases hget j u' hj with ⟨rfl, rfl⟩ | ⟨hjk, hu'⟩
      · exact absurd rfl hne
      · rw [sameMessage_comm] at hsame
        exact halone hplay j u' hjk hu' hsame hplay'
    · rcases hget j u' hj with ⟨rfl, rfl⟩ | ⟨-, hu'⟩
      · obtain ⟨hle, hone⟩ := halone hplay' i u hik hu hsame hplay
        obtain ⟨hsession, -, he, -⟩ := sameMessage_iff.mp hsame
        refine ⟨by rw [hsession, he]; exact hle, fun hd => ?_⟩
        by_contra hd'
        rw [hone (Bool.not_eq_false _ ▸ hd')] at hd
        cases hd
      · exact h.alone i j u u' hne hu hu' hsame hplay hplay'

/-- An authenticated message stays what it is short of the replay stage. -/
theorem Inv.goesOn (h : Inv w) (hk : w.tasks[k]? = some t) (hauth : t.stage.authentic = true)
    (hstage : stage.isDispatched = false)
    (hok : TaskOk (w.sessions t.session) { t with stage := stage })
    (hspent : ({ t with stage := stage } : Task C ι).keySpent = true →
      ∀ m ∈ inbound (w.sessions t.session) t.msg.epoch,
        m.Spends (insert t.msg.counter { c | c ∈ w.spent t.session t.msg.epoch })) :
    Inv { w with tasks := w.tasks.set k { t with stage := stage } } := by
  refine h.advance hk hok hspent fun hplay j t' hne hj hsame hplay' => ⟨?_, fun hd => ?_⟩
  · have hdummy := (Bool.and_eq_true_iff.mp hplay).2
    have hin : t.inPlay = true := Bool.and_eq_true_iff.mpr ⟨hauth, hdummy⟩
    rw [sameMessage_comm] at hsame
    exact (h.alone k j t t' (Ne.symm hne) hk hj hsame hin hplay').1
  · rw [hstage] at hd
    cases hd

theorem Inv.leaves (h : Inv w) (hk : w.tasks[k]? = some t)
    (hstage : stage = .planOurs ∨ stage = .dropped) :
    Inv { w with tasks := w.tasks.set k { t with stage := stage } } := by
  have hok := h.tasks t (mem_of_getElem? hk)
  rcases hstage with rfl | rfl <;>
    exact h.advance hk ⟨hok.peers, hok.below, by simp [Stage.authentic], trivial⟩
      (by simp [Task.keySpent]) (by simp [Task.inPlay, Stage.authentic])

theorem Inv.already (h : Inv w) (ht : t ∈ w.tasks) (hspent : t.keySpent = true) :
    ∀ m ∈ inbound (w.sessions t.session) t.msg.epoch,
      m.Spends (insert t.msg.counter { c | c ∈ w.spent t.session t.msg.epoch }) := by
  intro m hm
  have hmem : t.msg.counter ∈ { c | c ∈ w.spent t.session t.msg.epoch } :=
    mem_spent.mpr ⟨t, ht, rfl, rfl, hspent, rfl⟩
  rw [Set.insert_eq_of_mem hmem]
  exact h.chains t.session t.msg.epoch m hm

omit [DecidableEq ι] in
theorem TaskOk.stays (h : TaskOk s t) (hauth : t.stage.authentic = true)
    (hstage : stage = .resyncOurs ∨ stage = .opened) : TaskOk s { t with stage := stage } := by
  have hheld := h.held hauth
  rcases hstage with rfl | rfl <;> exact ⟨h.peers, h.below, fun _ => hheld, trivial⟩

/-- A legacy message is opened with the key its plan gives. -/
theorem Inv.openPeer (h : Inv w) (hk : w.tasks[k]? = some t) (halone : w.opensAlone t = true)
    (hkey : ((w.sessions t.session).planOpen t.msg.epoch t.msg.direction
      t.msg.counter).key?.isSome = true) :
    Inv { w with tasks := w.tasks.set k { t with
      stage := .commit t.msg.direction
        ((w.sessions t.session).planOpen t.msg.epoch t.msg.direction t.msg.counter) } } := by
  have hok := h.tasks t (mem_of_getElem? hk)
  have hpeers := hok.peers
  have hothers := h.opens hpeers hkey halone
  rw [hpeers] at hkey
  have hheld := held_planOpen (h.numbered t.session) hkey
  have hplan := planFor_planOpen hkey
  rw [← hpeers] at hplan
  exact h.advance hk ⟨hpeers, hok.below, fun _ => hheld, rfl, hplan⟩
    (by simp [Task.keySpent]) fun _ j t' _ hj hsame hplay =>
      ⟨hothers t' (mem_of_getElem? hj) hsame hplay, by simp [Stage.isDispatched]⟩

/-- A ShardSec message has its plan looked for again, in the peer's direction and then in ours. -/
theorem Inv.resyncs (h : Inv w) (hk : w.tasks[k]? = some t)
    (hstage : t.stage = .resyncPeer ∨ t.stage = .resyncOurs) {now : ℕ} {op : Option (SessionOp C)}
    (hnext : t.next (w.sessions t.session) now = some (stage, op)) :
    op = none ∧ Inv { w with tasks := w.tasks.set k { t with stage := stage } } := by
  have ht := mem_of_getElem? hk
  have hok := h.tasks t ht
  have hpeers := hok.peers
  have hauth : t.stage.authentic = true := by
    rcases hstage with hstage | hstage <;> rw [hstage] <;> rfl
  have hheld := hok.held hauth
  rcases hstage with hstage | hstage <;> simp only [Task.next, hstage] at hnext <;>
    split at hnext <;> rename_i hkey <;> cases hnext <;> refine ⟨rfl, ?_⟩
  · have hplan := planFor_planOpen hkey
    rw [← hpeers] at hplan ⊢
    exact h.goesOn hk hauth rfl ⟨hpeers, hok.below, fun _ => hheld, fun _ => hplan⟩
      (by simp [Task.keySpent])
  · exact h.goesOn hk hauth rfl (hok.stays hauth (.inl rfl)) fun _ =>
      spends_missed (Bool.eq_false_iff.mpr hkey) (hok.at hstage) (h.chains _ _)
  · refine h.goesOn hk hauth rfl ⟨hpeers, hok.below, fun _ => hheld, fun hours => ?_⟩
      fun _ => h.already ht (by rw [Task.keySpent, hstage])
    exact absurd (hours.trans hpeers).symm (peerDirection_ne _)
  · exact h.goesOn hk hauth rfl (hok.stays hauth (.inr rfl)) fun _ =>
      h.already ht (by rw [Task.keySpent, hstage])

theorem Inv.commits (h : Inv w) (hk : w.tasks[k]? = some t) {direction : NonceDirection}
    (hplan : t.stage = .commit direction plan ∨ t.stage = .resync direction plan)
    (hharmless : direction ≠ t.msg.direction ∨ w.harmless t plan = true) :
    Inv { w.setSession t.session ((w.sessions t.session).commitOpen t.msg.epoch direction plan) with
      tasks := w.tasks.set k { t with stage := .opened } } := by
  have ht := mem_of_getElem? hk
  have hauth : t.stage.authentic = true := by
    rcases hplan with hstage | hstage <;> rw [hstage] <;> rfl
  have hs := h.follows_commit ht hplan hharmless
  have hinv := h.setSession hs
  refine hinv.goesOn hk hauth rfl ((hinv.tasks t ht).stays hauth (.inr rfl)) fun _ => ?_
  by_cases hdirection : direction = t.msg.direction
  · subst hdirection
    have hspends := h.spends_commit ht hplan (hharmless.resolve_left (absurd rfl))
    exact fun m hm => hspends m (by simpa [Receiver.setSession] using hm)
  · refine hinv.already ht ?_
    rcases hplan with hstage | hstage
    · exact absurd ((h.tasks t ht).at hstage).1 hdirection
    · rw [Task.keySpent, hstage]
      exact decide_eq_true hdirection

omit [DecidableEq ι] in
theorem epoch_activateEpoch {now : ℕ} (h : s.preparedEpoch = some epoch) :
    (s.activateEpoch now epoch).2.epoch = epoch := by
  rcases s.ratchet.activate_cases epoch with ⟨-, hne⟩ | ⟨p, -, hp, hact⟩
  · exact absurd h hne
  · rw [activateEpoch, hact]
    dsimp only
    split <;> exact hp

theorem Inv.passes (h : Inv w) (hk : w.tasks[k]? = some t) (hspent : t.keySpent = true)
    (hdummy : t.msg.dummy = false) (hepoch : t.msg.epoch ≤ (w.sessions t.session).epoch)
    (hstage : stage = .replay ∨ stage = .window) :
    Inv { w with tasks := w.tasks.set k { t with stage := stage } } := by
  have ht := mem_of_getElem? hk
  have hok := h.tasks t ht
  rcases hstage with rfl | rfl <;>
    exact h.goesOn hk (authentic_of_keySpent hspent) rfl
      ⟨hok.peers, hok.below, fun _ => .inl hepoch, hepoch, hdummy⟩ fun _ => h.already ht hspent

/-- The replay stage lets a message of a retired epoch through: it has no other copy in play. -/
theorem Inv.bypasses (h : Inv w) (hk : w.tasks[k]? = some t) (hstage : t.stage = .replay)
    (hepoch : t.msg.epoch < (w.sessions t.session).epoch) :
    Inv { w with tasks := w.tasks.set k { t with stage := .dispatched } } := by
  have ht := mem_of_getElem? hk
  have hok := h.tasks t ht
  have hin := hok.at hstage
  have hspent : t.keySpent = true := by rw [Task.keySpent, hstage]
  refine h.advance hk ⟨hok.peers, hok.below, fun _ => .inl hin.1, hin,
    fun hlive => absurd hlive hepoch.ne⟩ (fun _ => h.already ht hspent) ?_
  intro _ j t' hne hj hsame hplay'
  have hplay : t.inPlay = true := by
    rw [Task.inPlay, hstage, hin.2]
    rfl
  rw [sameMessage_comm] at hsame
  have hle := (h.alone k j t t' (Ne.symm hne) hk hj hsame hplay hplay').1
  exact absurd hepoch (not_lt.mpr hle)

/-- The window lets a message of the live epoch through: no copy of it was dispatched, or it would
be on record. -/
theorem Inv.windowed (h : Inv w) {now : ℕ} (hk : w.tasks[k]? = some t) (hstage : t.stage = .window)
    (hok' : ((w.sessions t.session).checkInbound now t.msg.counter).1 = true)
    (hs : Follows w t.session ((w.sessions t.session).checkInbound now t.msg.counter).2) :
    Inv { w.setSession t.session ((w.sessions t.session).checkInbound now t.msg.counter).2 with
      tasks := w.tasks.set k { t with stage := .dispatched } } := by
  have ht := mem_of_getElem? hk
  have hinv := h.setSession hs
  have hok := hinv.tasks t ht
  have hin := hok.at hstage
  have hspent : t.keySpent = true := by rw [Task.keySpent, hstage]
  have hplay : t.inPlay = true := by
    rw [Task.inPlay, hstage, hin.2]
    rfl
  refine hinv.advance hk ⟨hok.peers, hok.below, fun _ => .inl hin.1, hin, fun _ => ?_⟩
    (fun _ => hinv.already ht hspent) ?_
  · simp only [Receiver.setSession, Function.update_self]
    exact Layers.SessionGuardU64.spent_checkAndUpdate hok'
  · intro _ j t' hne hj hsame hplay'
    have hsame' := hsame
    rw [sameMessage_comm] at hsame'
    refine ⟨(hinv.alone k j t t' (Ne.symm hne) hk hj hsame' hplay hplay').1, fun _ => ?_⟩
    by_contra hd
    rw [Bool.not_eq_false, isDispatched_iff] at hd
    have hold := h.tasks t' (mem_of_getElem? hj)
    obtain ⟨hi, -, he, hc⟩ := sameMessage_iff.mp hsame
    have hle := (h.alone k j t t' (Ne.symm hne) hk hj hsame' hplay hplay').1
    have hrecord := (hold.at hd).2 (le_antisymm (hold.at hd).1.1 (by rwa [hi, he]))
    rw [hi, hc] at hrecord
    exact Bool.false_ne_true
      ((Layers.SessionGuardU64.checkAndUpdate_spent hrecord).symm.trans hok')

theorem Inv.run (h : Inv w) {now : ℕ} (hg : w.orderly (.run k now) = true)
    (hk : w.tasks[k]? = some t) {op : Option (SessionOp C)}
    (hnext : t.next (w.sessions t.session) now = some (stage, op)) :
    Inv { op.elim w fun op => w.setSession t.session (op.run (w.sessions t.session)) with
      tasks := w.tasks.set k { t with stage := stage } } := by
  have hok := h.tasks t (mem_of_getElem? hk)
  simp only [orderly, hk, hnext] at hg
  cases hstage : t.stage with
  | planPeer =>
      simp only [Task.next, hstage] at hnext
      split at hnext
      · rename_i hfits
        cases hnext
        rw [hfits.2] at hg ⊢
        refine h.openPeer hk hg ?_
        rw [← hfits.2, hfits.1]
        rfl
      · cases hnext
        exact h.leaves hk (.inl rfl)
  | planOurs =>
      simp only [Task.next, hstage] at hnext
      split at hnext
      · rename_i hfits
        exact absurd (hok.peers.symm.trans hfits.2.symm) (peerDirection_ne _)
      · cases hnext
        exact h.leaves hk (.inr rfl)
  | commit direction plan =>
      simp only [Task.next, hstage] at hnext
      cases hnext
      exact h.commits hk (.inl hstage) (by simpa using hg)
  | resync direction plan =>
      simp only [Task.next, hstage] at hnext
      cases hnext
      exact h.commits hk (.inr hstage) (by simpa using hg)
  | resyncPeer | resyncOurs =>
      obtain ⟨rfl, hinv⟩ := h.resyncs hk (by simp [hstage]) hnext
      exact hinv
  | opened =>
      have hspent : t.keySpent = true := by rw [Task.keySpent, hstage]
      simp only [Task.next, hstage] at hnext
      split at hnext
      · cases hnext
        exact h.leaves hk (.inr rfl)
      · rename_i hdummy
        rw [Bool.not_eq_true] at hdummy
        split at hnext
        · rename_i hlater
          cases hnext
          have hprepared := (hok.held (authentic_of_keySpent hspent)).resolve_left
            (not_le.mpr hlater)
          have hinv := h.setSession (h.follows t.session (.activateEpoch now t.msg.epoch)
            (by simp) (by simp [SessionOp.seeds]) hg)
          refine hinv.passes hk hspent hdummy ?_ (.inl rfl)
          simp only [Receiver.setSession, Function.update_self]
          exact (epoch_activateEpoch hprepared).ge
        · rename_i hearlier
          cases hnext
          exact h.passes hk hspent hdummy (not_lt.mp hearlier) (.inl rfl)
  | replay =>
      simp only [Task.next, hstage] at hnext
      split at hnext
      · rename_i hretired
        cases hnext
        exact h.bypasses hk hstage hretired
      · cases hnext
        have hin := hok.at hstage
        exact h.passes hk (by rw [Task.keySpent, hstage]) hin.2 hin.1 (.inr rfl)
  | window =>
      simp only [Task.next, hstage] at hnext
      split at hnext
      · rename_i hpass
        cases hnext
        exact h.windowed hk hstage hpass (h.follows t.session
          (.checkInbound now t.msg.counter) (by simp) (by simp [SessionOp.seeds]) hg)
      · cases hnext
        have hinv := h.setSession (h.follows t.session (.checkInbound now t.msg.counter)
          (by simp) (by simp [SessionOp.seeds]) hg)
        exact hinv.leaves hk (.inr rfl)
  | dispatched | dropped =>
      simp only [Task.next, hstage] at hnext
      cases hnext

theorem Inv.step {w' : Receiver C ι} (h : Inv w) {act : ReceiverAct C ι}
    (hstep : w.step act = some w') (hg : w.orderly act = true) : Inv w' := by
  cases act with
  | op i op =>
      cases hstep
      cases op with
      | commitOpen => cases hg
      | _ =>
          simp only [orderly, Bool.and_eq_true, Bool.or_eq_true, Bool.not_eq_true'] at hg
          exact h.setSession (h.follows i _ (by simp) (fun hseeds => by simpa [hseeds] using hg.1)
            hg.2)
  | arrive i msg =>
      simp only [Receiver.step] at hstep
      split at hstep
      · cases hstep
      · cases hstep
        obtain ⟨hpeers, hbelow⟩ := Bool.and_eq_true_iff.mp hg
        refine h.append (t := ⟨i, msg, .planPeer⟩) ⟨of_decide_eq_true hpeers,
          of_decide_eq_true hbelow, by simp [Stage.authentic], trivial⟩ rfl rfl ?_ w.spool
        intro hplay
        cases hplay
  | ingest i msg index =>
      simp only [Receiver.step] at hstep
      split at hstep
      · cases hstep
      · rename_i hopens
        simp only [Bool.or_eq_true, not_or, Bool.not_eq_true', Bool.not_eq_false] at hopens
        simp only [orderly, Bool.and_eq_true, Bool.or_eq_true, Bool.not_eq_true'] at hg
        obtain ⟨hfrom, halone⟩ := hg
        obtain ⟨hpeers, hbelow⟩ := Bool.and_eq_true_iff.mp hfrom
        split at hstep
        · rename_i hcompletes
          cases hstep
          have hpeers := of_decide_eq_true hpeers
          have hopen := of_decide_eq_true hopens.2
          have hkey : ((w.sessions i).planOpen msg.epoch msg.direction msg.counter).key?.isSome =
              true := by
            rw [hopen]
            rfl
          have hothers := h.opens (t := ⟨i, msg, .resyncPeer⟩) hpeers hkey
            (halone.resolve_left (by simp [hcompletes]))
          rw [hpeers] at hkey
          have hheld := held_planOpen (h.numbered i) hkey
          have hnear := near_planOpen hkey
          exact h.append (t := ⟨i, msg, .resyncPeer⟩)
            ⟨hpeers, of_decide_eq_true hbelow, fun _ => hheld, hnear⟩ rfl rfl (fun _ => hothers) _
        · cases hstep
          exact ⟨h.numbered, h.chains, h.tasks, h.alone⟩
  | run k now =>
      simp only [Receiver.step] at hstep
      split at hstep
      · cases hstep
      · rename_i t hk
        split at hstep
        · cases hstep
        · rename_i stage op hnext
          have hinv := h.run hg hk hnext
          cases op <;> cases hstep <;> exact hinv

end Receiver

open Receiver

/-- In every orderly run of a receiver, every message goes past the replay stage at most once. -/
theorem replay_at_most_once (masterKey : ι → C.Key) (peer : ι → String) (role : ι → SessionRole)
    (now : ι → ℕ) {w : Receiver C ι}
    (h : Lib.Reaches Receiver.step (fun w act => w.orderly act = true)
      (start masterKey peer role now) w) : w.AtMostOnce :=
  (h.invariant Inv (inv_start masterKey peer role now)
    fun _ _ _ hu hg hstep => hu.step hstep hg).atMostOnce

/-- The first message an initiator seals in epoch 0 under the master key 0. -/
def firstMsg : Msg .symbolic :=
  { direction := .initiatorToResponder, epoch := 0, counter := 0
    key := Term.ckKey (.epochKey (.ckNext (.initChain 0 (.master 0))) 0)
    dummy := false, shardsec := false }

/-- A message received twice is opened by both invocations, and the window stops one. A third copy
comes when its epoch has retired, and has no key. -/
theorem replay_at_most_once_duplicate :
    ∃ w : Receiver .symbolic Unit,
      w.tasks.map (·.stage.isDispatched) = [true, false, false] ∧ w.AtMostOnce := by
  obtain ⟨w, hw, hp⟩ := Lib.Reaches.of_exec_any Receiver.step (fun w act => w.orderly act = true)
    (start (C := .symbolic) (fun _ : Unit => Term.master 0) (fun _ => "peer") (fun _ => .responder)
      (fun _ => 0))
    [.arrive () firstMsg, .arrive () firstMsg, .run 0 0, .run 1 0, .run 0 0, .run 1 0, .run 0 0,
      .run 1 0, .run 0 0, .run 1 0, .run 0 0, .run 1 0,
      .op () (.applyRatchetStep 0 ⟨([1], [2]), ([3], [4])⟩), .arrive () firstMsg, .run 2 0,
      .run 2 0]
    (fun w => w.tasks.map (·.stage.isDispatched) == [true, false, false]) (by decide +kernel)
  exact ⟨w, by simpa using hp, replay_at_most_once _ _ _ _ hw⟩

def dispatchedTwice (w : Receiver .symbolic Unit) : Bool :=
  match w.tasks with
  | [t, t'] => t.sameMessage t' && t.stage.isDispatched && t'.stage.isDispatched
  | _ => false

/-- The epoch of the message retires before it arrives, twice. Both invocations plan
before either commits, and nobody asks the window. -/
theorem replay_of_retired_epoch :
    ¬ ∀ (C : Crypto) (masterKey : Unit → C.Key) (peer : Unit → String)
        (role : Unit → SessionRole) (now : Unit → ℕ) (w : Receiver C Unit),
      Lib.Reaches Receiver.step (fun _ _ => True) (start masterKey peer role now) w →
        w.AtMostOnce := by
  intro h
  obtain ⟨w, hw, hp⟩ := Lib.Reaches.of_exec_any Receiver.step (fun _ _ => True)
    (start (C := .symbolic) (fun _ : Unit => Term.master 0) (fun _ => "peer") (fun _ => .responder)
      (fun _ => 0))
    [.op () (.applyRatchetStep 0 ⟨([1], [2]), ([3], [4])⟩), .arrive () firstMsg,
      .arrive () firstMsg, .run 0 0, .run 1 0, .run 0 0, .run 1 0, .run 0 0, .run 1 0, .run 0 0,
      .run 1 0]
    dispatchedTwice (by decide +kernel)
  have honce := h .symbolic _ _ _ _ w hw
  unfold dispatchedTwice at hp
  split at hp
  · rename_i t t' htasks
    simp only [Bool.and_eq_true] at hp
    have := honce 0 1 t t' (by rw [htasks]; rfl) (by rw [htasks]; rfl) hp.1.1 hp.1.2 hp.2
    cases this
  · cases hp

end Vantablack.Receive
