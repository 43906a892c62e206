import Vantablack.Crypto
import Vantablack.Lib.Runs

/-!
One TCP flow of the VPN hub's netstack, `net/vpn/netstack.rs`: the driver's side of it, the proxy
thread with its LAN reader and LAN writer, and the two bounded channels between them. The smoltcp
socket is a pair of bounded byte buffers; how much it takes or gives at a time is an input.

Every pass of the two loops of the driver is a step of its own, so that the other threads may run
between any two of them. The flow table, the NAT, the headroom signal and the byte counters are left
out. Times are in milliseconds.
-/

namespace Vantablack.Vpn

open Lib List

def sockBuf : ℕ := 512 * 1024
def flowQueue : ℕ := 512
def s2cPendingCap : ℕ := 512
def flowIdle : ℕ := 300 * 1000

/-- How long a flow that is done has to be quiet before it is collected. -/
def doneQuiet : ℕ := 2 * 1000

/-- The length of the driver's receive buffer. -/
def rxBufLen : ℕ := 65536

inductive TcpState
  | closed
  | listen
  | synSent
  | synReceived
  | established
  | finWait1
  | finWait2
  | closeWait
  | closing
  | lastAck
  | timeWait
  deriving DecidableEq

/-- `tx` holds what `send_slice` took and the client did not acknowledge, `rx` what the client sent
and `recv_slice` did not give out. -/
structure TcpSocket where
  state : TcpState
  tx : Bytes
  rx : Bytes

namespace TcpSocket

def maySend (s : TcpSocket) : Bool :=
  s.state = .established ∨ s.state = .closeWait

def canSend (s : TcpSocket) : Bool :=
  s.maySend && decide (s.tx.length < sockBuf)

/-- The state in which the driver takes the flow for finished by the client. -/
def isClosed (s : TcpSocket) : Bool :=
  s.state = .closed ∨ s.state = .timeWait

/-- How many bytes of `data` are taken when the socket would take `k`. -/
def accepts (s : TcpSocket) (k : ℕ) (data : Bytes) : ℕ :=
  min k (min data.length (sockBuf - s.tx.length))

/-- How many bytes are given out when the socket would give `k`. -/
def gives (s : TcpSocket) (k : ℕ) : ℕ :=
  min k (min s.rx.length rxBufLen)

end TcpSocket

/-- The proxy thread of a flow: not spawned yet, connecting to the LAN, with the loops of its reader
and writer running or not, and returned. -/
inductive Proxy
  | absent
  | connecting
  | running (reader writer : Bool)
  | gone
  deriving DecidableEq

/-- A flow with its two channels and its thread. `lanIn` is the channel from the LAN reader to the
driver and `stackOut` that from the driver to the LAN writer. -/
structure Flow where
  sock : TcpSocket
  lanIn : List Bytes
  stackOut : List Bytes
  proxy : Proxy
  done : Bool
  lastActivity : ℕ
  c2sPending : List Bytes
  s2cPending : List Bytes

namespace Flow

def new (now : ℕ) : Flow where
  sock := { state := .listen, tx := [], rx := [] }
  lanIn := []
  stackOut := []
  proxy := .absent
  done := false
  lastActivity := now
  c2sPending := []
  s2cPending := []

def spawned (f : Flow) : Bool :=
  f.proxy ≠ .absent

/-- The receiving end of `stackOut` is there: the flow holds it until the thread takes it. -/
def receiver (f : Flow) : Bool :=
  f.proxy ≠ .gone

/-- What the LAN reader pushed and the socket did not take yet. -/
def waiting (f : Flow) : Bytes :=
  f.c2sPending.flatten ++ f.lanIn.flatten

/-- What the socket gave out and the LAN writer did not take yet. -/
def outgoing (f : Flow) : Bytes :=
  f.stackOut.flatten ++ f.s2cPending.flatten

/-- One chunk goes to `send_slice`; the rest of it is queued. -/
def offer (f : Flow) (now k : ℕ) (data : Bytes) : Flow :=
  let n := f.sock.accepts k data
  let f' := { f with
    sock := { f.sock with tx := f.sock.tx ++ data.take n }
    lastActivity := now }
  if n < data.length then { f' with c2sPending := f'.c2sPending ++ [data.drop n] } else f'

/-- The chunk the LAN → stack loop takes next: the pending one first. -/
def nextChunk (f : Flow) : Option (Bytes × Flow) :=
  match f.c2sPending with
  | front :: rest => some (front, { f with c2sPending := rest })
  | [] =>
      match f.lanIn with
      | data :: rest => some (data, { f with lanIn := rest })
      | [] => none

/-- One pass of the LAN → stack loop, with the bytes the socket took. -/
def sendPass (f : Flow) (now k : ℕ) : Bytes × Flow :=
  if f.sock.canSend then
    match f.nextChunk with
    | some (data, f') => (data.take (f'.sock.accepts k data), f'.offer now k data)
    | none => ([], f)
  else ([], f)

/-- `stack_out_tx.try_send` and what follows it. -/
def forward (f : Flow) (chunk : Bytes) : Flow :=
  if f.receiver then
    if f.stackOut.length < flowQueue then { f with stackOut := f.stackOut ++ [chunk] }
    else { f with s2cPending := f.s2cPending ++ [chunk] }
  else { f with done := true }

/-- One pass of the stack → LAN loop, with the bytes the socket gave out. -/
def recvPass (f : Flow) (now k : ℕ) : Bytes × Flow :=
  if s2cPendingCap ≤ f.s2cPending.length then ([], f)
  else
    match f.s2cPending with
    | front :: rest => ([], { f with s2cPending := rest }.forward front)
    | [] =>
        let n := f.sock.gives k
        if n = 0 then ([], f)
        else
          (f.sock.rx.take n,
            { f with
              sock := { f.sock with rx := f.sock.rx.drop n }
              lastActivity := now }.forward (f.sock.rx.take n))

/-- The end of the pump of one flow. -/
def checkState (f : Flow) : Flow :=
  if f.sock.isClosed then { f with done := true } else f

/-- Whether the collector removes the flow, as dead or as idle. -/
def isCollected (f : Flow) (now : ℕ) : Bool :=
  (f.done && decide (doneQuiet < now - f.lastActivity)) || decide (flowIdle < now - f.lastActivity)

end Flow

/-! ### The flow among its threads -/

/-- A flow with its history. `clientClosed` says that the client has closed the connection at some
time. `pushed` is what the LAN reader pushed, `accepted` what `send_slice` took, `taken` what
`recv_slice` gave out and `handed` what the LAN writer got, each from the beginning. -/
structure FlowWorld where
  flow : Flow
  removed : Bool
  clientClosed : Bool
  pushed : Bytes
  accepted : Bytes
  taken : Bytes
  handed : Bytes

/-- `clientState`, `clientSends` and `clientAcks` are what the segments of the client do to the
socket. The driver starts the proxy, makes a pass of one of its loops, looks at the state of the
socket or collects. The proxy thread is not created, or it connects or fails to; its reader pushes a
chunk or ends, its writer takes a chunk or ends, and it returns. -/
inductive FlowAct
  | clientState (state : TcpState)
  | clientSends (data : Bytes)
  | clientAcks (k : ℕ)
  | spawnProxy
  | sendPass (now k : ℕ)
  | recvPass (now k : ℕ)
  | checkState
  | collect (now : ℕ)
  | spawnFails
  | connects
  | connectFails
  | push (data : Bytes)
  | readerEnds
  | drain
  | writerEnds
  | proxyReturns

namespace FlowWorld

def start (now : ℕ) : FlowWorld where
  flow := .new now
  removed := false
  clientClosed := false
  pushed := []
  accepted := []
  taken := []
  handed := []

/-- Apply a step of the driver or of the client, which both end with the flow. -/
def onFlow (w : FlowWorld) (g : Flow → Flow) : FlowWorld :=
  if w.removed then w else { w with flow := g w.flow }

def clientState (w : FlowWorld) (state : TcpState) : FlowWorld :=
  if w.removed then w
  else
    let sock := { w.flow.sock with state := state }
    { w with flow := { w.flow with sock := sock }, clientClosed := w.clientClosed || sock.isClosed }

def clientSends (w : FlowWorld) (data : Bytes) : FlowWorld :=
  w.onFlow fun f =>
    { f with sock := { f.sock with rx := f.sock.rx ++ data.take (sockBuf - f.sock.rx.length) } }

def clientAcks (w : FlowWorld) (k : ℕ) : FlowWorld :=
  w.onFlow fun f => { f with sock := { f.sock with tx := f.sock.tx.drop k } }

def spawnProxy (w : FlowWorld) : FlowWorld :=
  w.onFlow fun f =>
    if !f.spawned && decide (f.sock.state = .established) then { f with proxy := .connecting } else f

def sendPass (w : FlowWorld) (now k : ℕ) : FlowWorld :=
  if w.removed then w
  else
    let (n, f) := w.flow.sendPass now k
    { w with flow := f, accepted := w.accepted ++ n }

def recvPass (w : FlowWorld) (now k : ℕ) : FlowWorld :=
  if w.removed then w
  else
    let (n, f) := w.flow.recvPass now k
    { w with flow := f, taken := w.taken ++ n }

def collect (w : FlowWorld) (now : ℕ) : FlowWorld :=
  if !w.removed && w.flow.isCollected now then { w with removed := true } else w

/-- What the threads of the proxy do to their flow; they may outlive it. -/
def onProxy (w : FlowWorld) (g : Flow → Flow) : FlowWorld :=
  { w with flow := g w.flow }

/-- The thread could not be created: its end of the channel is dropped, and nothing else tells. -/
def spawnFails (w : FlowWorld) : FlowWorld :=
  w.onProxy fun f => if f.proxy = .connecting then { f with proxy := .gone } else f

def connects (w : FlowWorld) : FlowWorld :=
  w.onProxy fun f => if f.proxy = .connecting then { f with proxy := .running true true } else f

/-- `bind_and_connect` or `try_clone` failed: the thread returns with its end of the channel. -/
def connectFails (w : FlowWorld) : FlowWorld :=
  w.onProxy fun f =>
    if f.proxy = .connecting then { f with proxy := .gone, done := true } else f

/-- `try_send` of what the reader read. A full channel or one whose flow is gone takes nothing. -/
def push (w : FlowWorld) (data : Bytes) : FlowWorld :=
  match w.flow.proxy with
  | .running true _ =>
      if w.removed then w
      else if w.flow.lanIn.length < flowQueue then
        { w with
          flow := { w.flow with lanIn := w.flow.lanIn ++ [data] }
          pushed := w.pushed ++ data }
      else w
  | _ => w

/-- The LAN closed, the read failed, the push was given up or the flow is done. -/
def readerEnds (w : FlowWorld) : FlowWorld :=
  w.onProxy fun f =>
    match f.proxy with
    | .running true writer => { f with proxy := .running false writer, done := true }
    | _ => f

/-- The LAN writer gets the next chunk of its channel. -/
def drain (w : FlowWorld) : FlowWorld :=
  match w.flow.proxy, w.flow.stackOut with
  | .running _ true, chunk :: rest =>
      { w with flow := { w.flow with stackOut := rest }, handed := w.handed ++ chunk }
  | _, _ => w

/-- A write failed, or the channel is empty and its flow is gone. -/
def writerEnds (w : FlowWorld) : FlowWorld :=
  w.onProxy fun f =>
    match f.proxy with
    | .running reader true => { f with proxy := .running reader false, done := true }
    | _ => f

/-- Both loops have ended and the receiver of the channel is dropped. -/
def proxyReturns (w : FlowWorld) : FlowWorld :=
  w.onProxy fun f => if f.proxy = .running false false then { f with proxy := .gone } else f

def step (w : FlowWorld) : FlowAct → FlowWorld
  | .clientState state => w.clientState state
  | .clientSends data => w.clientSends data
  | .clientAcks k => w.clientAcks k
  | .spawnProxy => w.spawnProxy
  | .sendPass now k => w.sendPass now k
  | .recvPass now k => w.recvPass now k
  | .checkState => w.onFlow Flow.checkState
  | .collect now => w.collect now
  | .spawnFails => w.spawnFails
  | .connects => w.connects
  | .connectFails => w.connectFails
  | .push data => w.push data
  | .readerEnds => w.readerEnds
  | .drain => w.drain
  | .writerEnds => w.writerEnds
  | .proxyReturns => w.proxyReturns

end FlowWorld

/-! ### What one pass does to the bytes -/

namespace Flow

variable (f : Flow) (now k : ℕ)

theorem waiting_offer (data : Bytes) (hpending : f.c2sPending = []) :
    data.take (f.sock.accepts k data) ++ (f.offer now k data).waiting = data ++ f.waiting := by
  unfold offer
  simp only []
  split
  · simp only [waiting, hpending, nil_append, flatten_nil, flatten_cons,
      append_nil]
    rw [← append_assoc, take_append_drop]
  · rename_i hall
    rw [take_of_length_le (by omega)]
    rfl

theorem length_c2sPending_offer (data : Bytes) (hpending : f.c2sPending = []) :
    (f.offer now k data).c2sPending.length ≤ 1 := by
  unfold offer
  simp only []
  split
  · simp [hpending]
  · simp [hpending]

theorem nextChunk_spec {f f' : Flow} {data : Bytes} (h : f.nextChunk = some (data, f'))
    (hpending : f.c2sPending.length ≤ 1) :
    f'.c2sPending = [] ∧ f.waiting = data ++ f'.waiting ∧ f'.s2cPending = f.s2cPending ∧
      f'.stackOut = f.stackOut ∧ f'.proxy = f.proxy := by
  unfold nextChunk at h
  match hc : f.c2sPending with
  | front :: rest =>
      simp only [hc, Option.some.injEq, Prod.mk.injEq] at h
      obtain ⟨rfl, rfl⟩ := h
      have hrest : rest = [] := eq_nil_of_length_eq_zero (by simpa [hc] using hpending)
      simp [waiting, hc, hrest]
  | [] =>
      match hl : f.lanIn with
      | chunk :: rest =>
          simp only [hc, hl, Option.some.injEq, Prod.mk.injEq] at h
          obtain ⟨rfl, rfl⟩ := h
          simp [waiting, hc, hl]
      | [] => simp [hc, hl] at h

theorem offer_frame (data : Bytes) :
    (f.offer now k data).s2cPending = f.s2cPending ∧ (f.offer now k data).stackOut = f.stackOut ∧
      (f.offer now k data).proxy = f.proxy := by
  unfold offer
  simp only []
  split
  · exact ⟨rfl, rfl, rfl⟩
  · exact ⟨rfl, rfl, rfl⟩

theorem sendPass_waiting (hpending : f.c2sPending.length ≤ 1) :
    (f.sendPass now k).1 ++ (f.sendPass now k).2.waiting = f.waiting ∧
      (f.sendPass now k).2.c2sPending.length ≤ 1 := by
  unfold sendPass
  split
  · match hn : f.nextChunk with
    | some (data, f') =>
        obtain ⟨hempty, hwaiting, -⟩ := nextChunk_spec hn hpending
        rw [hwaiting]
        exact ⟨f'.waiting_offer now k data hempty, f'.length_c2sPending_offer now k data hempty⟩
    | none => exact ⟨rfl, hpending⟩
  · exact ⟨rfl, hpending⟩

theorem sendPass_frame (hpending : f.c2sPending.length ≤ 1) :
    (f.sendPass now k).2.s2cPending = f.s2cPending ∧
      (f.sendPass now k).2.stackOut = f.stackOut ∧
      (f.sendPass now k).2.proxy = f.proxy := by
  unfold sendPass
  split
  · match hn : f.nextChunk with
    | some (data, f') =>
        obtain ⟨-, -, hs2c, hout, hproxy⟩ := nextChunk_spec hn hpending
        rw [← hs2c, ← hout, ← hproxy]
        exact f'.offer_frame now k data
    | none => exact ⟨rfl, rfl, rfl⟩
  · exact ⟨rfl, rfl, rfl⟩

theorem forward_frame (chunk : Bytes) :
    (f.forward chunk).c2sPending = f.c2sPending ∧ (f.forward chunk).lanIn = f.lanIn ∧
      (f.forward chunk).proxy = f.proxy := by
  unfold forward
  split
  · split
    · exact ⟨rfl, rfl, rfl⟩
    · exact ⟨rfl, rfl, rfl⟩
  · exact ⟨rfl, rfl, rfl⟩

theorem outgoing_forward (chunk : Bytes) (hpending : f.s2cPending = []) :
    (f.forward chunk).s2cPending.length ≤ 1 ∧
      (f.receiver = true → (f.forward chunk).outgoing = f.outgoing ++ chunk) := by
  unfold forward
  split
  · split
    · simp [outgoing, hpending]
    · simp [outgoing, hpending]
  · rename_i hreceiver
    exact ⟨by simp [hpending], fun h => absurd h hreceiver⟩

theorem recvPass_frame :
    (f.recvPass now k).2.c2sPending = f.c2sPending ∧
      (f.recvPass now k).2.lanIn = f.lanIn ∧
      (f.recvPass now k).2.proxy = f.proxy := by
  unfold recvPass
  split
  · exact ⟨rfl, rfl, rfl⟩
  · match hs : f.s2cPending with
    | front :: rest => exact forward_frame _ front
    | [] =>
        simp only []
        split
        · exact ⟨rfl, rfl, rfl⟩
        · exact forward_frame _ _

theorem recvPass_outgoing (hpending : f.s2cPending.length ≤ 1) :
    (f.recvPass now k).2.s2cPending.length ≤ 1 ∧
      (f.receiver = true →
        (f.recvPass now k).2.outgoing = f.outgoing ++ (f.recvPass now k).1) := by
  unfold recvPass
  split
  · exact ⟨hpending, fun _ => (append_nil _).symm⟩
  · match hs : f.s2cPending with
    | front :: rest =>
        have hrest : rest = [] := eq_nil_of_length_eq_zero (by simpa [hs] using hpending)
        obtain ⟨hlen, hout⟩ := outgoing_forward { f with s2cPending := rest } front hrest
        refine ⟨hlen, fun hreceiver => ?_⟩
        rw [hout hreceiver]
        simp [outgoing, hs, hrest]
    | [] =>
        simp only []
        split
        · exact ⟨by simp [hs], fun _ => (append_nil _).symm⟩
        · set taken := f.sock.rx.take (f.sock.gives k)
          obtain ⟨hlen, hout⟩ := outgoing_forward
            { f with
              sock := { f.sock with rx := f.sock.rx.drop (f.sock.gives k) }
              lastActivity := now
              s2cPending := [] } taken rfl
          refine ⟨hlen, fun hreceiver => (hout hreceiver).trans ?_⟩
          simp [outgoing, hs]

end Flow

/-- The queues stay as they are, and no receiver comes back. -/
structure Flow.Keeps (f f' : Flow) : Prop where
  c2sPending_eq : f'.c2sPending = f.c2sPending
  lanIn_eq : f'.lanIn = f.lanIn
  s2cPending_eq : f'.s2cPending = f.s2cPending
  stackOut_eq : f'.stackOut = f.stackOut
  receiver_of : f'.receiver = true → f.receiver = true

/-! ### Any interleaving -/

namespace FlowWorld

/-- Nothing is lost between the threads: what was pushed is what the socket took and what waits, in
this order, and as long as the LAN writer's channel is there, what the socket gave out is what the
writer got and what is on its way to it. -/
structure Inv (w : FlowWorld) : Prop where
  c2sPending_le : w.flow.c2sPending.length ≤ 1
  s2cPending_le : w.flow.s2cPending.length ≤ 1
  pushed_eq : w.accepted ++ w.flow.waiting = w.pushed
  taken_eq : w.flow.receiver = true → w.handed ++ w.flow.outgoing = w.taken
  handed_prefix : w.handed <+: w.taken

theorem inv_start (now : ℕ) : (start now).Inv where
  c2sPending_le := Nat.zero_le _
  s2cPending_le := Nat.zero_le _
  pushed_eq := rfl
  taken_eq _ := rfl
  handed_prefix := prefix_rfl

namespace Inv

variable {w : FlowWorld} (h : w.Inv)

include h

theorem sendPass (now k : ℕ) : (w.sendPass now k).Inv := by
  unfold FlowWorld.sendPass
  split
  · exact h
  · obtain ⟨hwaiting, hlen⟩ := w.flow.sendPass_waiting now k h.c2sPending_le
    obtain ⟨hs2c, hout, hproxy⟩ := w.flow.sendPass_frame now k h.c2sPending_le
    refine ⟨hlen, hs2c ▸ h.s2cPending_le, ?_, ?_, h.handed_prefix⟩
    · show (w.accepted ++ (w.flow.sendPass now k).1) ++ (w.flow.sendPass now k).2.waiting = w.pushed
      rw [append_assoc, hwaiting, h.pushed_eq]
    · simp only [Flow.receiver, Flow.outgoing, hproxy, hs2c, hout]
      exact h.taken_eq

theorem recvPass (now k : ℕ) : (w.recvPass now k).Inv := by
  unfold FlowWorld.recvPass
  split
  · exact h
  · obtain ⟨hlen, hout⟩ := w.flow.recvPass_outgoing now k h.s2cPending_le
    obtain ⟨hc2s, hlan, hproxy⟩ := w.flow.recvPass_frame now k
    refine ⟨hc2s ▸ h.c2sPending_le, hlen, ?_, ?_, ?_⟩
    · simp only [Flow.waiting, hc2s, hlan]
      exact h.pushed_eq
    · intro hr
      simp only [Flow.receiver, hproxy] at hr
      show w.handed ++ (w.flow.recvPass now k).2.outgoing = w.taken ++ (w.flow.recvPass now k).1
      rw [hout hr, ← h.taken_eq hr, append_assoc]
    · exact h.handed_prefix.trans (prefix_append _ _)

theorem push (data : Bytes) : (w.push data).Inv := by
  unfold FlowWorld.push
  split
  · split
    · exact h
    · split
      · refine ⟨h.c2sPending_le, h.s2cPending_le, ?_, h.taken_eq, h.handed_prefix⟩
        simp only [Flow.waiting, flatten_append, flatten_cons, flatten_nil,
          append_nil]
        rw [← h.pushed_eq, Flow.waiting]
        simp only [append_assoc]
      · exact h
  · exact h

theorem drain : w.drain.Inv := by
  unfold FlowWorld.drain
  split
  · rename_i reader chunk rest hproxy hout
    have htaken := h.taken_eq (by rw [Flow.receiver, hproxy]; rfl)
    have hnew : (w.handed ++ chunk) ++ (rest.flatten ++ w.flow.s2cPending.flatten) = w.taken := by
      rw [← htaken, Flow.outgoing, hout]
      simp only [flatten_cons, append_assoc]
    exact ⟨h.c2sPending_le, h.s2cPending_le, h.pushed_eq, fun _ => hnew, ⟨_, hnew⟩⟩
  · exact h

theorem of_keeps {f : Flow} (hf : w.flow.Keeps f) (removed clientClosed : Bool) :
    { w with flow := f, removed := removed, clientClosed := clientClosed }.Inv where
  c2sPending_le := hf.c2sPending_eq ▸ h.c2sPending_le
  s2cPending_le := hf.s2cPending_eq ▸ h.s2cPending_le
  pushed_eq := by
    simp only [Flow.waiting, hf.c2sPending_eq, hf.lanIn_eq]
    exact h.pushed_eq
  taken_eq hr := by
    simp only [Flow.outgoing, hf.stackOut_eq, hf.s2cPending_eq]
    exact h.taken_eq (hf.receiver_of hr)
  handed_prefix := h.handed_prefix

theorem onProxy {g : Flow → Flow} (hg : w.flow.Keeps (g w.flow)) : (w.onProxy g).Inv :=
  h.of_keeps hg w.removed w.clientClosed

theorem onFlow {g : Flow → Flow} (hg : w.flow.Keeps (g w.flow)) : (w.onFlow g).Inv := by
  unfold FlowWorld.onFlow
  split
  · exact h
  · exact h.of_keeps hg w.removed w.clientClosed

theorem step (act : FlowAct) : (w.step act).Inv := by
  cases act with
  | sendPass now k => exact h.sendPass now k
  | recvPass now k => exact h.recvPass now k
  | push data => exact h.push data
  | drain => exact h.drain
  | clientState state =>
      simp only [FlowWorld.step, FlowWorld.clientState]
      split
      · exact h
      · refine h.of_keeps ?_ _ _
        exact ⟨rfl, rfl, rfl, rfl, id⟩
  | clientSends data =>
      simp only [FlowWorld.step, FlowWorld.clientSends]
      refine h.onFlow ?_
      exact ⟨rfl, rfl, rfl, rfl, id⟩
  | clientAcks k =>
      simp only [FlowWorld.step, FlowWorld.clientAcks]
      refine h.onFlow ?_
      exact ⟨rfl, rfl, rfl, rfl, id⟩
  | spawnProxy =>
      refine h.onFlow ?_
      split
      · rename_i hspawn
        have habsent : w.flow.proxy = .absent := by
          simpa [Flow.spawned] using (Bool.and_eq_true_iff.mp hspawn).1
        exact ⟨rfl, rfl, rfl, rfl, fun _ => by simp [Flow.receiver, habsent]⟩
      · exact ⟨rfl, rfl, rfl, rfl, id⟩
  | checkState =>
      refine h.onFlow ?_
      unfold Flow.checkState
      split
      · exact ⟨rfl, rfl, rfl, rfl, id⟩
      · exact ⟨rfl, rfl, rfl, rfl, id⟩
  | collect now =>
      simp only [FlowWorld.step, FlowWorld.collect]
      split
      · exact h.of_keeps ⟨rfl, rfl, rfl, rfl, id⟩ _ _
      · exact h
  | spawnFails =>
      refine h.onProxy ?_
      split
      · exact ⟨rfl, rfl, rfl, rfl, by simp [Flow.receiver]⟩
      · exact ⟨rfl, rfl, rfl, rfl, id⟩
  | connects =>
      refine h.onProxy ?_
      split
      · rename_i hproxy
        exact ⟨rfl, rfl, rfl, rfl, by simp [Flow.receiver, hproxy]⟩
      · exact ⟨rfl, rfl, rfl, rfl, id⟩
  | connectFails =>
      refine h.onProxy ?_
      split
      · exact ⟨rfl, rfl, rfl, rfl, by simp [Flow.receiver]⟩
      · exact ⟨rfl, rfl, rfl, rfl, id⟩
  | readerEnds =>
      simp only [FlowWorld.step, FlowWorld.readerEnds]
      refine h.onProxy ?_
      split
      · rename_i writer hproxy
        exact ⟨rfl, rfl, rfl, rfl, by simp [Flow.receiver, hproxy]⟩
      · exact ⟨rfl, rfl, rfl, rfl, id⟩
  | writerEnds =>
      simp only [FlowWorld.step, FlowWorld.writerEnds]
      refine h.onProxy ?_
      split
      · rename_i reader hproxy
        exact ⟨rfl, rfl, rfl, rfl, by simp [Flow.receiver, hproxy]⟩
      · exact ⟨rfl, rfl, rfl, rfl, id⟩
  | proxyReturns =>
      refine h.onProxy ?_
      split
      · exact ⟨rfl, rfl, rfl, rfl, by simp [Flow.receiver]⟩
      · exact ⟨rfl, rfl, rfl, rfl, id⟩

end Inv

/-- The idle limit has run out when the collector looks. -/
def IdleExpired (w : FlowWorld) : FlowAct → Prop
  | .collect now => flowIdle < now - w.flow.lastActivity
  | _ => False

/-- What holds after a step: both streams are in order and without a gap, and if the step removes the
flow, the client had closed, the flow was idle for too long, or all that was pushed was accepted. -/
structure Intact (w : FlowWorld) (act : FlowAct) : Prop where
  accepted_prefix : (w.step act).accepted <+: (w.step act).pushed
  handed_prefix : (w.step act).handed <+: (w.step act).taken
  removed_delivered : w.removed = false → (w.step act).removed = true →
    w.clientClosed = true ∨ w.IdleExpired act ∨ (w.step act).accepted = (w.step act).pushed

/-- When the collector looks at a flow that is done though the client did not close, and that has
been quiet for two seconds and not for the idle limit, nothing waits for the socket. -/
def NoneWaiting (w : FlowWorld) : FlowAct → Prop
  | .collect now =>
      w.removed = false → w.clientClosed = false → w.flow.done = true →
        doneQuiet < now - w.flow.lastActivity → now - w.flow.lastActivity ≤ flowIdle →
          w.flow.c2sPending.flatten = [] ∧ w.flow.lanIn.flatten = []
  | _ => True

instance (w : FlowWorld) (act : FlowAct) : Decidable (w.NoneWaiting act) :=
  match act with
  | .collect now => inferInstanceAs (Decidable (w.removed = false → w.clientClosed = false →
      w.flow.done = true → doneQuiet < now - w.flow.lastActivity →
        now - w.flow.lastActivity ≤ flowIdle →
          w.flow.c2sPending.flatten = [] ∧ w.flow.lanIn.flatten = []))
  | .clientState _ | .clientSends _ | .clientAcks _ | .spawnProxy | .sendPass .. | .recvPass ..
  | .checkState | .spawnFails | .connects | .connectFails | .push _ | .readerEnds | .drain
  | .writerEnds | .proxyReturns => inferInstanceAs (Decidable True)

theorem removed_step (w : FlowWorld) (act : FlowAct) (h : w.removed = false)
    (hstep : (w.step act).removed = true) :
    ∃ now, act = .collect now ∧ w.flow.isCollected now = true := by
  cases act with
  | collect now =>
      refine ⟨now, rfl, ?_⟩
      by_contra hkept
      simp [step, collect, hkept, h] at hstep
  | sendPass now k => simp [step, sendPass, h] at hstep
  | recvPass now k => simp [step, recvPass, h] at hstep
  | clientState state => simp [step, clientState, h] at hstep
  | push data =>
      simp only [step, push] at hstep
      split at hstep
      · simp only [h, Bool.false_eq_true, if_false] at hstep
        split at hstep <;> simp [h] at hstep
      · simp [h] at hstep
  | drain =>
      simp only [step, drain] at hstep
      split at hstep <;> simp [h] at hstep
  | clientSends data => simp [step, clientSends, onFlow, h] at hstep
  | clientAcks k => simp [step, clientAcks, onFlow, h] at hstep
  | spawnProxy => simp [step, spawnProxy, onFlow, h] at hstep
  | checkState => simp [step, onFlow, h] at hstep
  | spawnFails => simp [step, spawnFails, onProxy, h] at hstep
  | connects => simp [step, connects, onProxy, h] at hstep
  | connectFails => simp [step, connectFails, onProxy, h] at hstep
  | readerEnds => simp [step, readerEnds, onProxy, h] at hstep
  | writerEnds => simp [step, writerEnds, onProxy, h] at hstep
  | proxyReturns => simp [step, proxyReturns, onProxy, h] at hstep

theorem Inv.accepted_eq_pushed_iff {w : FlowWorld} (h : w.Inv) :
    w.accepted = w.pushed ↔ w.flow.c2sPending.flatten = [] ∧ w.flow.lanIn.flatten = [] := by
  rw [← append_eq_nil_iff, ← h.pushed_eq, Flow.waiting]
  exact self_eq_append_right

theorem step_collect {w : FlowWorld} {now : ℕ} (hremoved : w.removed = false)
    (hcollected : w.flow.isCollected now = true) :
    w.step (.collect now) = { w with removed := true } := by
  simp [step, collect, hremoved, hcollected]

/-- A step from a state in which nothing is lost leaves the streams intact exactly if the collector
meets the condition. -/
theorem Inv.intact_iff {w : FlowWorld} (h : w.Inv) (act : FlowAct) :
    w.Intact act ↔ w.NoneWaiting act := by
  constructor
  · intro hintact
    cases act with
    | collect now =>
        intro hremoved hclosed hdone hquiet hidle
        have hcollected : w.flow.isCollected now = true := by
          simp [Flow.isCollected, hdone, hquiet]
        have hstep := step_collect hremoved hcollected
        have hdelivered := hintact.removed_delivered hremoved (by rw [hstep])
        rw [hstep] at hdelivered
        rcases hdelivered with hc | hexpired | hall
        · rw [hclosed] at hc
          cases hc
        · exact absurd hexpired (Nat.not_lt.mpr hidle)
        · exact h.accepted_eq_pushed_iff.mp hall
    | _ => trivial
  · intro hnone
    have hnext := h.step act
    refine ⟨⟨_, hnext.pushed_eq⟩, hnext.handed_prefix, fun hremoved hstep => ?_⟩
    obtain ⟨now, rfl, hcollected⟩ := removed_step w act hremoved hstep
    by_cases hclosed : w.clientClosed = true
    · exact .inl hclosed
    by_cases hidle : flowIdle < now - w.flow.lastActivity
    · exact .inr (.inl hidle)
    have hdone : w.flow.done = true ∧ doneQuiet < now - w.flow.lastActivity := by
      simpa [Flow.isCollected, hidle] using hcollected
    rw [step_collect hremoved hcollected]
    refine .inr (.inr (h.accepted_eq_pushed_iff.mpr ?_))
    exact hnone hremoved (by simpa using hclosed) hdone.1 hdone.2 (Nat.not_lt.mp hidle)

/-- In every interleaving, the streams stay intact at each step exactly as long as the collector
never finds bytes that wait in a flow that only the LAN has ended. -/
theorem flows_intact_iff (now : ℕ) (acts : List FlowAct) :
    Always step Intact (start now) acts ↔ Always step NoneWaiting (start now) acts :=
  Always.congr_of_invariant Inv (fun _ act h => h.step act) (fun _ act h => h.intact_iff act)
    (inv_start now) acts

/-- The LAN is silent for two seconds and then sends its last byte and closes, both after the driver
has looked for bytes of the LAN and before it collects. -/
def lateAnswer : List FlowAct :=
  [.clientState .established, .spawnProxy, .connects, .sendPass 2001 1, .push [7], .readerEnds,
    .recvPass 2001 1, .checkState, .collect 2001]

/-- The byte is pushed and never reaches the socket. -/
theorem answer_collected : ¬ Always step Intact (start 0) lateAnswer := by
  rw [Always.congr_of_invariant Inv (fun _ act h => h.step act) (fun _ act h => h.intact_iff act)
    (inv_start 0) lateAnswer]
  decide +kernel

end FlowWorld

end Vantablack.Vpn
