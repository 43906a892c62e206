import Vantablack.Session.Basic
import Vantablack.Symbolic

/-!
Two sessions that run the hybrid step exchange against each other: the state of both
peers, the frames in flight between them, and the atomic steps of the maintenance task
and of the tasks that handle received frames (`handle_pkt`, `handle_ratchet_pdu`).

A step or answer PDU waits in the outbox until it is sealed on the live epoch of the
moment. The receiver opens the frame, installs a prepared epoch the frame was sealed in,
and only then looks at the PDU; each of these is a step of its own, and frames may be
opened in any order or never.
-/

namespace Vantablack.Session

variable {C : Crypto}

/-- A step PDU. The stamp and the epoch it was begun in are bookkeeping of the model; no
operation reads them. -/
structure StepPdu where
  stamp : ℕ
  begunEpoch : ℕ
  xPublic : Bytes
  kemPublic : Bytes

/-- An answer PDU. Bookkeeping: the stamp of the step answered, the live epoch and root
it was answered on, and what was prepared for it. -/
structure AnswerPdu (C : Crypto) where
  stamp : ℕ
  baseEpoch : ℕ
  baseRoot : C.Key
  prepared : ℕ × C.Key × C.Key × C.Key
  xPublic : Bytes
  kemCt : Bytes
  confirm : C.Key

inductive Payload (C : Crypto) where
  | step (pdu : StepPdu)
  | answer (pdu : AnswerPdu C)
  | data

/-- A sealed frame. It opens with the key and the direction it was sealed with. -/
structure Frame (C : Crypto) where
  epoch : ℕ
  counter : ℕ
  direction : NonceDirection
  key : C.Key
  payload : Payload C

structure Endpoint (C : Crypto) where
  session : Session C
  fingerprint : String
  /-- PDUs composed and not yet sealed. -/
  outbox : List (Payload C)
  /-- Frames sent and still in flight. -/
  wire : List (Frame C)
  /-- Frames opened, with the epoch they were sealed in. -/
  opened : List (ℕ × Payload C)
  /-- Frames that went past the activation of their epoch. -/
  ready : List (Payload C)
  /-- Steps `admit_peer_step` let through. -/
  admitted : List StepPdu
  -- bookkeeping: every PDU composed, and the newest stamps begun, admitted and answered
  sent : List (Payload C)
  lastBegun : ℕ
  lastAdmitted : ℕ
  lastAnswered : ℕ

inductive ExchangeAct (C : Crypto) where
  | begin (now : ℕ) (step : RatchetStep C)
  | send (k : ℕ)
  | sendData
  | deliver (now k : ℕ)
  | activate (now k : ℕ)
  | admitStep (k : ℕ)
  | answer (k : ℕ) (step : RatchetStep C) (coins : C.Coins)
  | finish (now k expected : ℕ)
  | abandon

/-- The X25519 public keys of the steps an endpoint has begun. -/
def Endpoint.stepPublics (x : Endpoint C) : List Bytes :=
  x.sent.filterMap fun
    | .step pdu => some pdu.xPublic
    | _ => none

def Endpoint.sealPayload (x : Endpoint C) (payload : Payload C) : Endpoint C :=
  let (m, session) := x.session.sealMaterial
  { x with
    session := session
    wire := x.wire ++ [{ epoch := m.epoch, counter := m.counter, direction := m.direction
                         key := m.key, payload := payload }] }

namespace Endpoint

def start (masterKey : C.Key) (ours theirs : String) (role : SessionRole) (now : ℕ) :
    Endpoint C :=
  { session := newWithRole masterKey theirs role now, fingerprint := ours
    outbox := [], wire := [], opened := [], ready := [], admitted := [], sent := []
    lastBegun := 0, lastAdmitted := 0, lastAnswered := 0 }

/-- `begin_ratchet_step` with material not drawn before. -/
def begin (x : Endpoint C) (clock now : ℕ) (step : RatchetStep C) : Option (Endpoint C) :=
  if step.xPublicBytes ∈ x.stepPublics then none
  else
    match x.session.beginRatchetStep now step with
    | (none, _) => none
    | (some (xPublic, kemPublic), session) =>
        let pdu : Payload C := .step
          { stamp := clock + 1, begunEpoch := x.session.epoch, xPublic := xPublic
            kemPublic := kemPublic }
        some { x with
          session := session, outbox := x.outbox ++ [pdu], sent := pdu :: x.sent
          lastBegun := clock + 1 }

/-- Open a frame; one that does not open is dropped. -/
def receive (x : Endpoint C) (now : ℕ) (frame : Frame C) : Endpoint C :=
  match x.session.openReceivedFrame now frame.epoch frame.counter
      (fun direction key => direction = frame.direction ∧ key = frame.key) with
  | (true, session) =>
      { x with session := session, opened := x.opened ++ [(frame.epoch, frame.payload)] }
  | (false, session) => { x with session := session }

/-- `if meta.epoch > s.epoch() { s.activate_epoch(meta.epoch) }`. -/
def activate (x : Endpoint C) (now epoch : ℕ) : Session C :=
  if epoch > x.session.epoch then (x.session.activateEpoch now epoch).2 else x.session

def admitStep (x : Endpoint C) (pdu : StepPdu) : Endpoint C :=
  match x.session.admitPeerStep x.fingerprint with
  | (true, session) =>
      { x with
        session := session, admitted := x.admitted ++ [pdu]
        lastAdmitted := max x.lastAdmitted pdu.stamp }
  | (false, session) => { x with session := session }

/-- `answer_ratchet_step`, and the PDU that carries the answer. -/
def answer (x : Endpoint C) (pdu : StepPdu) (step : RatchetStep C) (coins : C.Coins) :
    Endpoint C :=
  match x.session.answerRatchetStep step coins pdu.xPublic pdu.kemPublic with
  | (none, session) => { x with session := session }
  | (some answer, session) =>
      match session.ratchet.pending with
      | none => { x with session := session }
      | some p =>
          let reply : Payload C := .answer
            { stamp := pdu.stamp, baseEpoch := x.session.epoch
              baseRoot := x.session.ratchet.rootKey, prepared := p.skeleton
              xPublic := answer.xPublic, kemCt := answer.kemCt, confirm := answer.confirm }
          { x with
            session := session, outbox := x.outbox ++ [reply], sent := reply :: x.sent
            lastAnswered := max x.lastAnswered pdu.stamp }

/-- `finish_ratchet_step`. The wire does not carry the answer's epoch: `handle_ratchet_pdu`
fills in one more than the epoch it read before. -/
def finish (x : Endpoint C) (now expected : ℕ) (pdu : AnswerPdu C) : Endpoint C :=
  { x with
    session := (x.session.finishRatchetStep now
      { xPublic := pdu.xPublic, kemCt := pdu.kemCt, confirm := pdu.confirm
        epoch := expected }).2 }

/-- One step of `x` against its peer `y`. -/
def step (x y : Endpoint C) (clock : ℕ) : ExchangeAct C → Option (Endpoint C × Endpoint C × ℕ)
  | .begin now step => (x.begin clock now step).map fun x => (x, y, clock + 1)
  | .send k =>
      match x.outbox[k]? with
      | none => none
      | some payload =>
          some ({ x with outbox := x.outbox.eraseIdx k }.sealPayload payload, y, clock)
  | .sendData => some (x.sealPayload .data, y, clock)
  | .deliver now k =>
      match y.wire[k]? with
      | none => none
      | some frame => some (x.receive now frame, { y with wire := y.wire.eraseIdx k }, clock)
  | .activate now k =>
      match x.opened[k]? with
      | none => none
      | some (epoch, payload) =>
          some ({ x with
            session := x.activate now epoch, opened := x.opened.eraseIdx k
            ready := x.ready ++ [payload] }, y, clock)
  | .admitStep k =>
      match x.ready[k]? with
      | some (.step pdu) =>
          some ({ x with ready := x.ready.eraseIdx k }.admitStep pdu, y, clock)
      | _ => none
  | .answer k step coins =>
      match x.admitted[k]? with
      | none => none
      | some pdu =>
          some ({ x with admitted := x.admitted.eraseIdx k }.answer pdu step coins, y, clock)
  | .finish now k expected =>
      match x.ready[k]? with
      | some (.answer pdu) =>
          some ({ x with ready := x.ready.eraseIdx k }.finish now expected pdu, y, clock)
      | _ => none
  | .abandon => some ({ x with session := x.session.abandonRatchetStep }, y, clock)

end Endpoint

inductive Peer where
  | a
  | b
  deriving DecidableEq

/-- Both endpoints and the clock that stamps the steps begun. -/
structure Exchange (C : Crypto) where
  a : Endpoint C
  b : Endpoint C
  clock : ℕ

namespace Exchange

/-- Two sessions of one master key in complementary roles. -/
def start (masterKey : C.Key) (fpA fpB : String) (now : ℕ) : Exchange C :=
  { a := .start masterKey fpA fpB .initiator now, b := .start masterKey fpB fpA .responder now
    clock := 0 }

def step (w : Exchange C) : Peer × ExchangeAct C → Option (Exchange C)
  | (.a, act) => (w.a.step w.b w.clock act).map fun (a, b, clock) => ⟨a, b, clock⟩
  | (.b, act) => (w.b.step w.a w.clock act).map fun (b, a, clock) => ⟨a, b, clock⟩

def actor (w : Exchange C) : Peer → Endpoint C
  | .a => w.a
  | .b => w.b

/-- The peer's steps are answered in the order they were begun: none is answered after
one that was begun later. -/
def InOrder (w : Exchange C) : Peer × ExchangeAct C → Prop
  | (i, .answer k _ _) =>
      match (w.actor i).admitted[k]? with
      | some pdu => (w.actor i).lastAnswered < pdu.stamp
      | none => True
  | _ => True

instance (w : Exchange C) (act : Peer × ExchangeAct C) : Decidable (InOrder w act) :=
  match act with
  | (i, .answer k _ _) =>
      match h : (w.actor i).admitted[k]? with
      | some pdu =>
          decidable_of_iff ((w.actor i).lastAnswered < pdu.stamp) (by simp only [InOrder, h])
      | none => .isTrue (by simp only [InOrder, h])
  | (_, .begin ..) | (_, .send ..) | (_, .sendData) | (_, .deliver ..) | (_, .activate ..)
  | (_, .admitStep ..) | (_, .finish ..) | (_, .abandon) => .isTrue trivial

/-- `x` is one epoch ahead of `y`, which holds that very epoch prepared. -/
def AheadPrepared (x y : Session C) : Prop :=
  x.epoch = y.epoch + 1 → ∃ p, y.ratchet.pending = some p ∧ p.epoch = x.epoch ∧
    p.rootKey = x.ratchet.rootKey ∧ p.toResp.chain = x.ratchet.toResp.chain ∧
    p.toInit.chain = x.ratchet.toInit.chain

/-- The two sessions can always reach one another: equal epochs have equal keys, and of
two consecutive ones the older side has the newer epoch prepared. -/
def Agree (w : Exchange C) : Prop :=
  AheadPrepared w.a.session w.b.session ∧ AheadPrepared w.b.session w.a.session ∧
    (w.a.session.epoch = w.b.session.epoch →
      w.a.session.ratchet.rootKey = w.b.session.ratchet.rootKey ∧
      w.a.session.ratchet.toResp.chain = w.b.session.ratchet.toResp.chain ∧
      w.a.session.ratchet.toInit.chain = w.b.session.ratchet.toInit.chain)

end Exchange

end Vantablack.Session
