import Vantablack.Lib.Custody
import Vantablack.Net.Reorder
import Vantablack.Net.Tunnel
import Vantablack.Socks.Capacity

/-!
Payloads that the two ends of a session seal for each other and send through relays. The relays
have every sealed payload and bring any bytes to either end, any number of times, each time in a
frame of their own session. At the last hop `handle_pkt` opens the payload with the master key of
the session, in both directions, and looks at its counter only where a stream puts chunks in order.
The counter stands in front of the ciphertext, and no tag covers it.

The ends are named by their roles in the session. The keys of other sessions do not open the
payload; nothing is said about nodes that do not have the key.
-/

namespace Vantablack.Socks

open Lib Layers Net Receive Send Session List

/-- Data of a stream, with the sealed payload it came in if it came through relays. -/
structure Chunk where
  origin : Option Bytes
  data : Bytes

/-- A reorder buffer: that of an exit's tunnel, or that of the channel of a stream. Neither key has
the address of the peer in it. -/
inductive Window where
  | tunnel (streamId : UInt32)
  | channel (streamId : UInt32)
  deriving DecidableEq

/-- What a node has for the session: `exit_tunnels` and `rx_state_map`, `sessions_rx`, and
`connect_ok_ctrs`. -/
structure Endpoint where
  windows : Window → Option (RxState Chunk)
  channels : UInt32 → Bool
  okCtrs : UInt32 → Option ℕ

namespace Endpoint

def empty : Endpoint where
  windows _ := none
  channels _ := false
  okCtrs _ := none

/-- The streams a payload is told apart by. -/
def streams (e : Endpoint) (role : SessionRole) : Streams where
  role := role
  tunnelOpen id := (e.windows (.tunnel id)).isSome
  channelOpen := e.channels

def setWindow (e : Endpoint) (win : Window) (rx : Option (RxState Chunk)) : Endpoint :=
  { e with windows := Function.update e.windows win rx }

/-- The window of a channel, anchored after the OK. -/
def channelRx (e : Endpoint) (id : UInt32) : RxState Chunk :=
  let st := (e.windows (.channel id)).getD .new
  match st.next with
  | some _ => st
  | none => { st with next := (e.okCtrs id).map (· + 1) }

/-- Push a chunk into a window: the node after it, and what is handed on. -/
def push (e : Endpoint) (win : Window) (rx : RxState Chunk) (ctr : ℕ) (chunk : Chunk) :
    Endpoint × List (Option Bytes) :=
  let (out, rx) := rxPush rx ctr chunk
  (e.setWindow win (some rx), out.map Chunk.origin)

def connectOk (e : Endpoint) (id : UInt32) (ctr : ℕ) : Endpoint :=
  { e.setWindow (.channel id) none with okCtrs := Function.update e.okCtrs id (some ctr) }

def close (e : Endpoint) (id : UInt32) : Endpoint :=
  { (e.setWindow (.tunnel id) none).setWindow (.channel id) none with
    channels := Function.update e.channels id false }

/-- The payload that waits in a slot of a buffer. -/
def waiting (e : Endpoint) (slot : Window × ℕ) : Option Bytes :=
  ((e.windows slot.1).bind fun rx => rx.buf.lookup slot.2).bind Chunk.origin

/-- What a payload does, and the payloads that are dispatched by it. -/
def handle (e : Endpoint) (ctr : ℕ) (origin : Option Bytes) :
    Handling → Endpoint × List (Option Bytes)
  | .connect => (e, [origin])
  | .connectOk id => (e.connectOk id ctr, [origin])
  | .close (some id) => (e.close id, [origin])
  | .tunnelData id data =>
      match e.windows (.tunnel id) with
      | some rx => e.push (.tunnel id) rx ctr { origin := origin, data := data }
      | none => (e, [])
  | .channelData id data =>
      e.push (.channel id) (e.channelRx id) ctr { origin := origin, data := data }
  | .bye => (empty, [])
  | _ => (e, [])

/-- The window that a payload would be pushed into. -/
def windowOf (e : Endpoint) : Handling → Option (RxState Chunk)
  | .tunnelData id _ => e.windows (.tunnel id)
  | .channelData id _ => some (e.channelRx id)
  | _ => none

/-- A chunk whose window is already past its counter. -/
def Late (e : Endpoint) (ctr : ℕ) (handling : Handling) : Prop :=
  ∃ rx ∈ e.windowOf handling, ∃ next ∈ rx.next, ctr < next

end Endpoint

/-! ### The circuit -/

variable {C : Crypto}

/-- What the ends share: the master key, and whether an end is an exit for the other. -/
structure CircuitConfig (C : Crypto) where
  key : C.Key
  exitFor : SessionRole → Bool

/-- Both ends, and what was sealed by whom, brought to an end that opens it, and dispatched where. A
sealed payload is known by its nonce and its ciphertext. -/
structure Circuit where
  ends : SessionRole → Endpoint
  sealed : List (SessionRole × Bytes)
  brought : List Bytes
  dispatched : List (SessionRole × Bytes)

inductive CircuitAct where
  /-- An end seals a payload, an exit its replies always as the responder. -/
  | send (side : SessionRole) (reply : Bool) (dctr : UInt64) (wireNonce : Octets 12)
      (payload : Bytes)
  /-- A relay brings an inner payload. -/
  | arrive (side : SessionRole) (inner : Bytes)
  /-- A payload comes in a frame of the session itself. -/
  | direct (side : SessionRole) (ctr : ℕ) (handling : Handling)
  /-- An exit has connected: `handle_exit_connect` ends. -/
  | establish (side : SessionRole) (streamId : UInt32) (connectCtr : ℕ)
  | closeWindow (side : SessionRole) (win : Window)
  | channel (side : SessionRole) (streamId : UInt32) (isOpen : Bool)

def innerCtr (inner : Bytes) : ℕ := fromBeBytes (inner.take 8)

/-- The last hop: the payload of an inner payload that opens. -/
def openE2e (A : Aead C) (key : C.Key) (inner : Bytes) : Option Bytes :=
  if inner.length < 20 + 16 then none
  else do
    let wireNonce ← blockAt inner 8 12
    let blob := inner.drop 20
    let plain ← (A.xchachaOpen key wireNonce 0 .initiatorToResponder [] blob).or
      (A.xchachaOpen key wireNonce 0 .responderToInitiator [] blob)
    Send.framePayload plain

namespace Circuit

variable (A : Aead C) (cfg : CircuitConfig C)

def start : Circuit where
  ends _ := .empty
  sealed := []
  brought := []
  dispatched := []

def enter (w : Circuit) (side : SessionRole) (r : Endpoint × List (Option Bytes)) : Circuit :=
  { w with
    ends := Function.update w.ends side r.1
    dispatched := w.dispatched ++ (r.2.reduceOption.map fun b => (side, b)) }

def sealedBy (side : SessionRole) (reply : Bool) (dctr : UInt64) (wireNonce : Octets 12)
    (payload : Bytes) : Bytes :=
  sealE2e A
    { key := cfg.key, role := if reply then .responder else side, dctr := dctr
      wireNonce := wireNonce } payload

/-- What the end makes of a payload that came through relays. -/
def handlingAt (w : Circuit) (side : SessionRole) (payload : Bytes) : Handling :=
  match dispatchRelayed ((w.ends side).streams side) payload with
  | .connect => if cfg.exitFor side then .connect else .dropped
  | handling => handling

def step (w : Circuit) : CircuitAct → Circuit
  | .send side reply dctr wireNonce payload =>
      { w with
        sealed := w.sealed ++ [(side, (sealedBy A cfg side reply dctr wireNonce payload).drop 8)] }
  | .arrive side inner =>
      match openE2e A cfg.key inner with
      | none => w
      | some payload =>
          { w.enter side ((w.ends side).handle (innerCtr inner) (some (inner.drop 8))
              (w.handlingAt cfg side payload)) with brought := inner.drop 8 :: w.brought }
  | .direct side ctr handling => w.enter side ((w.ends side).handle ctr none handling)
  | .establish side id connectCtr =>
      w.enter side
        ((w.ends side).setWindow (.tunnel id)
          (some { next := some (connectCtr + 1), buf := ∅ }), [])
  | .closeWindow side win => w.enter side ((w.ends side).setWindow win none, [])
  | .channel side id isOpen =>
      w.enter side
        ({ w.ends side with channels := Function.update (w.ends side).channels id isOpen }, [])

/-- Every sealed payload was dispatched at most once, and not where it was sealed. -/
def DispatchedOnce (w : Circuit) : Prop :=
  ∀ s ∈ w.sealed, (w.dispatched.map Prod.snd).count s.2 ≤ 1 ∧ s ∉ w.dispatched

/-- The cipher is ideal: what opens was sealed, and a fresh nonce makes a new ciphertext. -/
def Ideal (w : Circuit) : CircuitAct → Prop
  | .send side reply dctr wireNonce payload =>
      (sealedBy A cfg side reply dctr wireNonce payload).drop 8 ∉ w.sealed.map Prod.snd
  | .arrive _ inner =>
      (openE2e A cfg.key inner).isSome = true → inner.drop 8 ∈ w.sealed.map Prod.snd
  | _ => True

def waiting (w : Circuit) (side : SessionRole) (slot : Window × ℕ) : Option Bytes :=
  (w.ends side).waiting slot

/-- An inner payload that opens is brought to the end that did not seal it, and for the first time,
unless it is a chunk that comes too late for its window. -/
def BroughtOnce (w : Circuit) : CircuitAct → Prop
  | .arrive side inner => ∀ payload, openE2e A cfg.key inner = some payload →
      (side, inner.drop 8) ∉ w.sealed ∧ inner.drop 8 ∉ w.brought ∨
        (w.ends side).Late (innerCtr inner) (w.handlingAt cfg side payload)
  | _ => True

end Circuit

/-! ### A window -/

section Window

variable {sent done : List (SessionRole × Bytes)}
  {waiting : SessionRole → Window × ℕ → Option Bytes} {side : SessionRole} {win : Window}

/-- The slots with those of one window replaced. -/
def withBuffer (waiting : SessionRole → Window × ℕ → Option Bytes) (side : SessionRole)
    (win : Window) (buf : Table ℕ Chunk) : SessionRole → Window × ℕ → Option Bytes :=
  fun side' i =>
    if side' = side ∧ i.1 = win then (buf.lookup i.2).bind Chunk.origin else waiting side' i

/-- The chunks handed on, as entries of the list. -/
def entries (side : SessionRole) (out : List Chunk) : List (SessionRole × Bytes) :=
  (out.map Chunk.origin).reduceOption.map fun b => (side, b)

theorem entries_cons_some {d : Chunk} {b : Bytes} (h : d.origin = some b) (out : List Chunk) :
    entries side (d :: out) = (side, b) :: entries side out := by
  rw [entries, map_cons, h, reduceOption_cons_of_some, map_cons]
  rfl

theorem entries_cons_none {d : Chunk} (h : d.origin = none) (out : List Chunk) :
    entries side (d :: out) = entries side out := by
  rw [entries, map_cons, h, reduceOption_cons_of_none]
  rfl

theorem withBuffer_eq_some {buf : Table ℕ Chunk} {side' : SessionRole} {i : Window × ℕ} {b : Bytes}
    (h : withBuffer waiting side win buf side' i = some b) :
    (waiting side' i = some b ∧ ¬ (side' = side ∧ i.1 = win)) ∨
      (side' = side ∧ i.1 = win ∧ ∃ d, buf.lookup i.2 = some d ∧ d.origin = some b) := by
  unfold withBuffer at h
  split at h
  · rename_i hin
    exact .inr ⟨hin.1, hin.2, Option.bind_eq_some_iff.mp h⟩
  · rename_i hout
    exact .inl ⟨h, hout⟩

theorem custody_flush (fuel next : ℕ) (buf : Table ℕ Chunk)
    (h : Custody sent done (withBuffer waiting side win buf)) :
    Custody sent (done ++ entries side (flush fuel next buf).1)
      (withBuffer waiting side win (flush fuel next buf).2.2) := by
  induction fuel generalizing next buf done with
  | zero => simpa [flush, entries, reduceOption] using h
  | succ fuel ih =>
      cases hnext : buf.lookup next with
      | none => simpa [flush, hnext, entries, reduceOption] using h
      | some d =>
          have hsub : ∀ side' i b, withBuffer waiting side win (buf.erase next) side' i = some b →
              withBuffer waiting side win buf side' i = some b := by
            intro side' i b hb
            rcases withBuffer_eq_some hb with ⟨hold, hout⟩ | ⟨hside, hwin, d', hd', ho⟩
            · rw [withBuffer, if_neg hout, hold]
            · rw [withBuffer, if_pos ⟨hside, hwin⟩, (Table.lookup_erase_eq_some.mp hd').2]
              exact ho
          have hflush : (flush (fuel + 1) next buf).1 =
              d :: (flush fuel (next + 1) (buf.erase next)).1 ∧
              (flush (fuel + 1) next buf).2.2 = (flush fuel (next + 1) (buf.erase next)).2.2 := by
            constructor <;> simp only [flush, hnext]
          rw [hflush.1, hflush.2]
          cases ho : d.origin with
          | none =>
              rw [entries_cons_none ho]
              exact ih (next + 1) (buf.erase next) (h.drop hsub)
          | some b =>
              rw [entries_cons_some ho, ← singleton_append, ← append_assoc]
              refine ih (next + 1) (buf.erase next) (h.take (i := (win, next)) ?_ hsub ?_)
              · simp [withBuffer, hnext, ho]
              · simp [withBuffer]

theorem custody_rxPush {rx : RxState Chunk} {ctr : ℕ} {chunk : Chunk}
    (h : Custody sent done waiting)
    (hwaiting : ∀ c, waiting side (win, c) = (rx.buf.lookup c).bind Chunk.origin)
    (hnew : ∀ b, chunk.origin = some b →
      (∀ slot, Arrives sent done waiting side b slot) ∨ ∃ next ∈ rx.next, ctr < next) :
    Custody sent (done ++ entries side (rxPush rx ctr chunk).1)
      (withBuffer waiting side win (rxPush rx ctr chunk).2.buf) := by
  have hsame : withBuffer waiting side win rx.buf = waiting := by
    funext side' i
    unfold withBuffer
    split
    · rename_i hin
      rw [hin.1, ← hwaiting, ← hin.2]
    · rfl
  unfold rxPush
  split
  · rename_i hnext
    rw [hsame]
    cases ho : chunk.origin with
    | none =>
        rw [entries_cons_none ho]
        simpa [entries, reduceOption] using h
    | some b =>
        rw [entries_cons_some ho]
        refine h.pass ((hnew b ho).resolve_right ?_ none)
        rintro ⟨next, hsome, -⟩
        rw [hnext] at hsome
        cases hsome
  · rename_i next hnext
    split
    · rw [hsame]
      simpa [entries, reduceOption] using h
    · rename_i hctr
      refine custody_flush _ next _ ?_
      -- the chunk replaces what waited under the counter
      have hput : ∀ side' i b', withBuffer waiting side win (rx.buf.insert ctr chunk) side' i =
          some b' → waiting side' i = some b' ∨
            (side' = side ∧ i = (win, ctr) ∧ chunk.origin = some b') := by
        intro side' i b' hb'
        rcases withBuffer_eq_some hb' with ⟨hold, -⟩ | ⟨hside, hwin, d, hd, hod⟩
        · exact .inl hold
        · rcases Table.lookup_insert_eq_some.mp hd with ⟨hc, rfl⟩ | ⟨-, hold⟩
          · exact .inr ⟨hside, Prod.ext hwin hc, hod⟩
          · refine .inl ?_
            rw [hside, show i = (win, i.2) from Prod.ext hwin rfl, hwaiting, hold]
            exact hod
      cases ho : chunk.origin with
      | none =>
          refine h.drop fun side' i b' hb' => ?_
          rcases hput side' i b' hb' with hold | ⟨-, -, hnone⟩
          · exact hold
          · rw [ho] at hnone
            cases hnone
      | some b =>
          have hfresh : ∀ slot, Arrives sent done waiting side b slot := by
            refine (hnew b ho).resolve_right ?_
            rintro ⟨next', hsome, hlt⟩
            rw [hnext] at hsome
            cases hsome
            exact hctr hlt
          refine h.put (hfresh (some (win, ctr))) fun side' i b' hb' => ?_
          rcases hput side' i b' hb' with hold | ⟨hside, hi, hsome⟩
          · exact .inl hold
          · rw [ho] at hsome
            exact .inr ⟨hside, hi, (Option.some.inj hsome).symm⟩

end Window

/-! ### One step -/

namespace Circuit

variable {A : Aead C} {cfg : CircuitConfig C} {w : Circuit} {side : SessionRole}
  {sent : List (SessionRole × Bytes)}

/-- The sealed payloads that were brought, with who sealed them. -/
def arrived (w : Circuit) : List (SessionRole × Bytes) :=
  w.sealed.filter fun s => w.brought.contains s.2

/-- What is dispatched or waits was sealed by the other end and brought, and nothing is dispatched
twice; no two sealed payloads are alike. -/
structure Inv (w : Circuit) : Prop where
  custody : Custody w.arrived w.dispatched w.waiting
  known : ∀ b ∈ w.brought, b ∈ w.sealed.map Prod.snd
  distinct : (w.sealed.map Prod.snd).Nodup

theorem inv_start : start.Inv where
  custody := Custody.start _ fun _ _ => rfl
  known b hb := by cases hb
  distinct := nodup_nil

theorem mem_arrived {p : SessionRole × Bytes} :
    p ∈ w.arrived ↔ p ∈ w.sealed ∧ p.2 ∈ w.brought := by
  rw [arrived, mem_filter, List.contains_iff_mem]

theorem brought_of_mem_arrived {b : Bytes} (h : b ∈ w.arrived.map Prod.snd) : b ∈ w.brought := by
  obtain ⟨p, hp, rfl⟩ := mem_map.mp h
  exact (mem_arrived.mp hp).2

theorem Inv.dispatchedOnce (h : w.Inv) : w.DispatchedOnce := by
  intro s hs
  refine ⟨nodup_iff_count_le_one.mp h.custody.once s.2, fun hmem => ?_⟩
  have hbrought := brought_of_mem_arrived (h.custody.known s hmem)
  exact h.custody.foreign s hmem (mem_arrived.mpr ⟨hs, hbrought⟩)

variable (e : Endpoint)

theorem waiting_enter (origins : List (Option Bytes)) (side' : SessionRole) (i : Window × ℕ) :
    (w.enter side (e, origins)).waiting side' i =
      if side' = side then e.waiting i else w.waiting side' i := by
  show (Function.update w.ends side e side').waiting i = _
  rw [Function.update_apply]
  split <;> rfl

theorem waiting_of_enter {e : Endpoint} {origins : List (Option Bytes)}
    (hsub : ∀ i b, e.waiting i = some b → (w.ends side).waiting i = some b) (side' : SessionRole)
    (i : Window × ℕ) (b : Bytes) (hb : (w.enter side (e, origins)).waiting side' i = some b) :
    w.waiting side' i = some b := by
  rw [waiting_enter] at hb
  split at hb
  · rename_i hside
    rw [hside]
    exact hsub i b hb
  · exact hb

/-- What was sent, dispatched and waits is in order, for a list of what was sent. -/
def Held (sent : List (SessionRole × Bytes)) (w : Circuit) : Prop :=
  Custody sent w.dispatched w.waiting

theorem Held.quiet (h : Held sent w) {e : Endpoint}
    (hsub : ∀ i b, e.waiting i = some b → (w.ends side).waiting i = some b) :
    Held sent (w.enter side (e, [])) := by
  have hdispatched : (w.enter side (e, [])).dispatched = w.dispatched := append_nil _
  unfold Held
  rw [hdispatched]
  exact h.drop (waiting_of_enter hsub)

theorem Held.pass (h : Held sent w) {e : Endpoint} {origin : Option Bytes}
    (hsub : ∀ i b, e.waiting i = some b → (w.ends side).waiting i = some b)
    (horigin : ∀ b, origin = some b → Arrives sent w.dispatched w.waiting side b none) :
    Held sent (w.enter side (e, [origin])) := by
  cases origin with
  | none => exact h.quiet hsub
  | some b => exact Custody.drop (Custody.pass h (horigin b rfl)) (waiting_of_enter hsub)

theorem waiting_setWindow (win : Window) (rx : Option (RxState Chunk)) (i : Window × ℕ) :
    (e.setWindow win rx).waiting i =
      if i.1 = win then (rx.bind fun rx => rx.buf.lookup i.2).bind Chunk.origin
      else e.waiting i := by
  show ((Function.update e.windows win rx i.1).bind fun rx => rx.buf.lookup i.2).bind _ = _
  rw [Function.update_apply]
  split <;> rfl

theorem waiting_of_setWindow {e : Endpoint} {win : Window} {rx : Option (RxState Chunk)}
    (hrx : ∀ r ∈ rx, r.buf = ∅) (i : Window × ℕ) (b : Bytes)
    (hb : (e.setWindow win rx).waiting i = some b) : e.waiting i = some b := by
  rw [waiting_setWindow] at hb
  split at hb
  · obtain ⟨d, hd, -⟩ := Option.bind_eq_some_iff.mp hb
    obtain ⟨r, hr, hlookup⟩ := Option.bind_eq_some_iff.mp hd
    rw [hrx r hr] at hlookup
    cases hlookup
  · exact hb

theorem Held.push (h : Held sent w) {win : Window} {rx : RxState Chunk} {ctr : ℕ} {chunk : Chunk}
    (hwaiting : ∀ c, (w.ends side).waiting (win, c) = (rx.buf.lookup c).bind Chunk.origin)
    (hnew : ∀ b, chunk.origin = some b →
      (∀ slot, Arrives sent w.dispatched w.waiting side b slot) ∨ ∃ next ∈ rx.next, ctr < next) :
    Held sent (w.enter side ((w.ends side).push win rx ctr chunk)) := by
  have hcustody := custody_rxPush h hwaiting hnew
  refine Custody.drop hcustody fun side' i b hb => ?_
  rw [Endpoint.push, waiting_enter] at hb
  unfold withBuffer
  split at hb
  · rename_i hside
    rw [waiting_setWindow] at hb
    split at hb
    · rename_i hwin
      rw [if_pos ⟨hside, hwin⟩]
      exact hb
    · rename_i hwin
      rw [if_neg fun hin => hwin hin.2, hside]
      exact hb
  · rename_i hside
    rw [if_neg fun hin => hside hin.1]
    exact hb

theorem waiting_channelRx (id : UInt32) (c : ℕ) :
    e.waiting (.channel id, c) = ((e.channelRx id).buf.lookup c).bind Chunk.origin := by
  have hbuf : (e.channelRx id).buf = ((e.windows (.channel id)).getD .new).buf := by
    unfold Endpoint.channelRx
    dsimp only
    split <;> rfl
  rw [hbuf, Endpoint.waiting]
  cases e.windows (.channel id) with
  | none => rfl
  | some rx => rfl

theorem waiting_connectOk (id : UInt32) (ctr : ℕ) (i : Window × ℕ) (b : Bytes)
    (hb : (e.connectOk id ctr).waiting i = some b) : e.waiting i = some b :=
  waiting_of_setWindow (fun _ hr => by cases hr) i b hb

theorem waiting_close (id : UInt32) (i : Window × ℕ) (b : Bytes)
    (hb : (e.close id).waiting i = some b) : e.waiting i = some b :=
  waiting_of_setWindow (fun _ hr => by cases hr) i b
    (waiting_of_setWindow (fun _ hr => by cases hr) i b hb)

theorem handle_tunnelData (ctr : ℕ) (origin : Option Bytes) (id : UInt32) (data : Bytes) :
    e.handle ctr origin (.tunnelData id data) =
      match e.windows (.tunnel id) with
      | some rx => e.push (.tunnel id) rx ctr { origin := origin, data := data }
      | none => (e, []) := rfl

theorem Held.handle (h : Held sent w) {ctr : ℕ} {origin : Option Bytes} {handling : Handling}
    (hnew : ∀ b, origin = some b → (∀ slot, Arrives sent w.dispatched w.waiting side b slot) ∨
      (w.ends side).Late ctr handling) :
    Held sent (w.enter side ((w.ends side).handle ctr origin handling)) := by
  have hsame : ∀ i b, (w.ends side).waiting i = some b → (w.ends side).waiting i = some b :=
    fun _ _ hb => hb
  -- only a chunk can be late
  have hpass : (w.ends side).windowOf handling = none →
      ∀ b, origin = some b → Arrives sent w.dispatched w.waiting side b none := by
    intro hnone b hb
    rcases hnew b hb with hfresh | ⟨rx, hrx, -⟩
    · exact hfresh none
    · rw [hnone] at hrx
      cases hrx
  cases handling with
  | connect => exact h.pass hsame (hpass rfl)
  | connectOk id => exact h.pass (waiting_connectOk _ id ctr) (hpass rfl)
  | close id =>
      cases id with
      | none => exact h.quiet hsame
      | some id => exact h.pass (waiting_close _ id) (hpass rfl)
  | tunnelData id data =>
      rw [handle_tunnelData]
      cases hrx : (w.ends side).windows (.tunnel id) with
      | none => exact h.quiet hsame
      | some rx =>
          refine h.push (fun c => ?_) fun b hb => (hnew b hb).imp_right ?_
          · rw [Endpoint.waiting, hrx]
            rfl
          · rintro ⟨rx', hrx', hlate⟩
            cases hrx.symm.trans hrx'
            exact hlate
  | channelData id data =>
      refine h.push (waiting_channelRx _ id) fun b hb => (hnew b hb).imp_right ?_
      rintro ⟨rx, hrx, hlate⟩
      cases hrx
      exact hlate
  | bye => exact h.quiet fun _ _ hb => by cases hb
  | cover | ratchet | quantumMix | pqAuth | vpn | peerExchange | chat | blindRelay | onionRelay
  | dropped => exact h.quiet hsame

/-- A step that brings nothing: what it does to the ends is all that changes. -/
theorem Inv.enter (h : w.Inv) {r : Endpoint × List (Option Bytes)}
    (hheld : Held w.arrived (w.enter side r)) : (w.enter side r).Inv where
  custody := hheld
  known := h.known
  distinct := h.distinct

theorem Inv.send (h : w.Inv) {b : Bytes} (hb : b ∉ w.sealed.map Prod.snd) (side : SessionRole) :
    Inv { w with sealed := w.sealed ++ [(side, b)] } where
  custody := by
    have hsame : arrived { w with sealed := w.sealed ++ [(side, b)] } = w.arrived := by
      have hnot : b ∉ w.brought := fun hmem => hb (h.known b hmem)
      simp [arrived, filter_append, hnot]
    rw [hsame]
    exact h.custody
  known b' hb' := by
    rw [map_append]
    exact mem_append_left _ (h.known b' hb')
  distinct := by
    rw [map_append]
    exact h.distinct.append (nodup_singleton b) fun b' hold hnew => by
      rw [mem_singleton.mp hnew] at hold
      exact hb hold

/-- A payload that opens is brought: it is one that was sealed. -/
theorem Inv.bring (h : w.Inv) {b : Bytes} (hb : b ∈ w.sealed.map Prod.snd) :
    Inv { w with brought := b :: w.brought } where
  custody := by
    by_cases hold : b ∈ w.brought
    · refine h.custody.of_mem_iff fun p => ?_
      rw [mem_arrived, mem_arrived, mem_cons]
      constructor
      · exact fun hp => ⟨hp.1, .inr hp.2⟩
      · rintro ⟨hp, hsame | hmem⟩
        · exact ⟨hp, hsame ▸ hold⟩
        · exact ⟨hp, hmem⟩
    · obtain ⟨⟨s, b⟩, hs, rfl⟩ := mem_map.mp hb
      refine (h.custody.send (s := s) fun hmem => hold (brought_of_mem_arrived hmem)).of_mem_iff
        fun p => ?_
      rw [mem_append, mem_singleton, mem_arrived, mem_arrived, mem_cons]
      constructor
      · rintro (hp | rfl)
        · exact ⟨hp.1, .inr hp.2⟩
        · exact ⟨hs, .inl rfl⟩
      · rintro ⟨hp, hsame | hmem⟩
        · exact .inr (inj_on_of_nodup_map h.distinct hp hs hsame)
        · exact .inl ⟨hp, hmem⟩
  known b' hb' := by
    rcases mem_cons.mp hb' with rfl | hmem
    · exact hb
    · exact h.known b' hmem
  distinct := h.distinct

theorem Inv.arrives (h : w.Inv) {b : Bytes} (hknown : b ∈ w.sealed.map Prod.snd)
    (hforeign : (side, b) ∉ w.sealed) (hfirst : b ∉ w.brought) (slot : Option (Window × ℕ)) :
    Arrives (arrived { w with brought := b :: w.brought }) w.dispatched w.waiting side b slot where
  known := by
    obtain ⟨p, hp, rfl⟩ := mem_map.mp hknown
    exact mem_map_of_mem (mem_arrived.mpr ⟨hp, mem_cons_self⟩)
  foreign hmem := hforeign (mem_arrived.mp hmem).1
  fresh hmem := by
    obtain ⟨p, hp, rfl⟩ := mem_map.mp hmem
    exact hfirst (brought_of_mem_arrived (h.custody.known p hp))
  elsewhere s i hb :=
    absurd (brought_of_mem_arrived (h.custody.waitingKnown s i b hb)) hfirst

theorem Inv.step (h : w.Inv) {act : CircuitAct} (hideal : w.Ideal A cfg act)
    (honce : w.BroughtOnce A cfg act) : (w.step A cfg act).Inv := by
  cases act with
  | send side reply dctr wireNonce payload => exact h.send hideal side
  | arrive side inner =>
      unfold Circuit.step
      dsimp only
      split
      · exact h
      · rename_i payload hopen
        have hknown := hideal (by rw [hopen]; rfl)
        have hbring := h.bring hknown
        refine Inv.enter hbring (Held.handle hbring.custody fun b hb => ?_)
        cases hb
        exact (honce payload hopen).imp_left fun hnew => h.arrives hknown hnew.1 hnew.2
  | direct side ctr handling => exact h.enter (Held.handle h.custody fun b hb => by cases hb)
  | establish side id connectCtr =>
      exact h.enter (Held.quiet h.custody (waiting_of_setWindow fun r hr => by cases hr; rfl))
  | closeWindow side win =>
      exact h.enter (Held.quiet h.custody (waiting_of_setWindow fun r hr => by cases hr))
  | channel side id isOpen => exact h.enter (Held.quiet h.custody fun _ _ hb => hb)

section Replay

/-- The cipher of the example: its tag is the direction. -/
def directionAead : Aead .symbolic :=
  .tagging (fun _ _ _ direction _ => List.Vector.replicate 16
    (if direction = .initiatorToResponder then 1 else 2)) fun key _ _ _ => key

def circuitConfig : CircuitConfig .symbolic where
  key := .master 1
  exitFor _ := true

def connectPayload : Bytes := utf8 "STREAM!1!h:80"

def connectInner : Bytes :=
  sealedBy directionAead circuitConfig .initiator false 2 (List.Vector.replicate 12 7)
    connectPayload

/-- The client seals a CONNECT, and a relay brings it to the exit. -/
def onceBrought : List CircuitAct :=
  [.send .initiator false 2 (List.Vector.replicate 12 7) connectPayload,
    .arrive .responder connectInner]

/-- The same, where the relay brings it to the exit again and back to the client. -/
def replayed : List CircuitAct :=
  onceBrought ++ [.arrive .responder connectInner, .arrive .initiator connectInner]

end Replay

end Circuit

end Vantablack.Socks
