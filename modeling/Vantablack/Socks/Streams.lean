import Vantablack.Net.Reorder
import Vantablack.Net.Tunnel
import Vantablack.Symbolic

/-!
The SOCKS streams of one session, in one direction: a sender that numbers its messages with the
counter of the session, or with the counter for relayed payloads, and a receiver that puts the
chunks of each stream in order by these numbers. A message arrives once, at any time, as one frame;
what comes directly passes the message chains and the replay window of the receiver's session, what
comes through relays passes those of the relay's session only.
-/

namespace Vantablack.Socks

open Lib Net Session Layers List Function

/-! ### The receiver -/

/-- An exit's tunnel: its reorder window, and what went into the connection. -/
structure ExitTunnel where
  rx : RxState Bytes
  out : List Bytes

/-- What the tables of a node hold for one stream of the session: its tunnel if the node is the
exit, the channel with what went into it if the node opened the stream, the counter of the OK and
the reorder state of the channel. -/
structure StreamRx where
  tunnel : Option ExitTunnel
  channel : Option (List Bytes)
  okCtr : Option ℕ
  rxState : Option (RxState Bytes)

namespace StreamRx

def empty : StreamRx :=
  { tunnel := none, channel := none, okCtr := none, rxState := none }

/-- The window of the channel, anchored after the OK. -/
def channelRx (s : StreamRx) : RxState Bytes :=
  let st := s.rxState.getD .new
  match st.next with
  | some _ => st
  | none => { st with next := s.okCtr.map (· + 1) }

def connectOk (s : StreamRx) (ctr : ℕ) : StreamRx :=
  { s with okCtr := some ctr, rxState := none }

/-- The counter of the OK stays. -/
def close (s : StreamRx) : StreamRx :=
  { s with tunnel := none, channel := none, rxState := none }

def tunnelData (s : StreamRx) (ctr : ℕ) (data : Bytes) : StreamRx :=
  match s.tunnel with
  | none => s
  | some t =>
      let (flushed, rx) := rxPush t.rx ctr data
      { s with tunnel := some { rx := rx, out := t.out ++ flushed } }

def channelData (s : StreamRx) (ctr : ℕ) (data : Bytes) : StreamRx :=
  match s.channel with
  | none => s
  | some out =>
      let (flushed, rx) := rxPush s.channelRx ctr data
      { s with channel := some (out ++ flushed), rxState := some rx }

/-- The end of `handle_exit_connect`: a tunnel, anchored after the CONNECT. -/
def establish (s : StreamRx) (connectCtr : ℕ) : StreamRx :=
  { s with tunnel := some { rx := { next := some (connectCtr + 1), buf := ∅ }, out := [] } }

/-- The window and the output of the stream, once it is anchored. -/
def receiver (s : StreamRx) : Option (RxState Bytes × List Bytes) :=
  match s.tunnel with
  | some t => some (t.rx, t.out)
  | none =>
      match s.channel, s.okCtr with
      | some out, some _ => some (s.channelRx, out)
      | _, _ => none

variable {s : StreamRx}

theorem receiver_tunnelData {t : ExitTunnel} (ht : s.tunnel = some t) (ctr : ℕ) (data : Bytes) :
    (s.tunnelData ctr data).receiver =
      some ((rxPush t.rx ctr data).2, t.out ++ (rxPush t.rx ctr data).1) := by
  simp only [tunnelData, ht, receiver]

theorem receiver_channel (ht : s.tunnel = none) {rx : RxState Bytes} {out : List Bytes}
    (h : s.receiver = some (rx, out)) :
    s.channel = some out ∧ (∃ ok, s.okCtr = some ok) ∧ s.channelRx = rx := by
  unfold receiver at h
  rw [ht] at h
  dsimp only at h
  split at h
  · rename_i ok hchannel hok
    cases h
    exact ⟨hchannel, ⟨ok, hok⟩, rfl⟩
  · cases h

theorem tunnel_of_receiver (h : s.receiver.isNone = true) :
    s.tunnel = none ∧ (s.okCtr = none ∨ s.channel = none) := by
  unfold receiver at h
  cases htunnel : s.tunnel with
  | some t =>
      rw [htunnel] at h
      cases h
  | none =>
      refine ⟨rfl, ?_⟩
      rw [htunnel] at h
      cases hchannel : s.channel with
      | none => exact Or.inr rfl
      | some out =>
          cases hok : s.okCtr with
          | none => exact Or.inl rfl
          | some ok =>
              rw [hchannel, hok] at h
              cases h

theorem channelRx_of_anchored {st : RxState Bytes} (hst : s.rxState = some st) {next : ℕ}
    (hnext : st.next = some next) : s.channelRx = st := by
  unfold channelRx
  rw [hst]
  simp only [Option.getD_some, hnext]

theorem receiver_channelData (ht : s.tunnel = none) {rx : RxState Bytes} {out : List Bytes}
    (h : s.receiver = some (rx, out)) {ctr : ℕ} {data : Bytes} {next : ℕ}
    (hnext : (rxPush rx ctr data).2.next = some next) :
    (s.channelData ctr data).receiver =
      some ((rxPush rx ctr data).2, out ++ (rxPush rx ctr data).1) := by
  obtain ⟨hchannel, ⟨ok, hok⟩, rfl⟩ := receiver_channel ht h
  have hpushed : s.channelData ctr data =
      { s with
        channel := some (out ++ (rxPush s.channelRx ctr data).1)
        rxState := some (rxPush s.channelRx ctr data).2 } := by
    rw [channelData, hchannel]
  rw [hpushed]
  unfold receiver
  rw [ht, hok]
  dsimp only
  rw [channelRx_of_anchored rfl hnext]

end StreamRx

def openStreams (role : SessionRole) (streams : UInt32 → StreamRx) : Streams where
  role := role
  tunnelOpen id := (streams id).tunnel.isSome
  channelOpen id := (streams id).channel.isSome

/-- What a payload does to the tables. -/
def applyHandling (streams : UInt32 → StreamRx) (ctr : ℕ) : Handling → UInt32 → StreamRx
  | .connectOk id => update streams id ((streams id).connectOk ctr)
  | .close (some id) => update streams id (streams id).close
  | .tunnelData id data => update streams id ((streams id).tunnelData ctr data)
  | .channelData id data => update streams id ((streams id).channelData ctr data)
  | .bye => fun _ => .empty
  | _ => streams

theorem applyHandling_of_isControl {a : Handling} (h : a.isControl = true)
    (streams : UInt32 → StreamRx) (ctr : ℕ) : a = .bye ∨ applyHandling streams ctr a = streams := by
  cases a with
  | bye => exact Or.inl rfl
  | connectOk _ | close _ | connect | tunnelData _ _ | channelData _ _ | dropped => cases h
  | _ => exact Or.inr rfl

/-! ### The link -/

variable {C : Crypto}

/-- A message on its way; `chunkOf` says what it was sent as and is kept for the statements only. -/
structure Packet where
  relayed : Bool
  epoch : ℕ
  ctr : ℕ
  payload : Bytes
  chunkOf : Option (UInt32 × Bytes)

def pathOf (vpn relayed : Bool) (ctr : ℕ) : Path :=
  if relayed then .relayed else .direct vpn ctr

structure Link (C : Crypto) where
  sender : Session C
  receiver : Session C
  flight : List Packet
  streams : UInt32 → StreamRx
  -- the CONNECTs whose destination is being opened
  connecting : List (UInt32 × ℕ)
  -- the counter of the message that opened a stream, and the chunks sent on it
  opening : UInt32 → Option ℕ
  chunks : UInt32 → List Bytes

inductive LinkAct (C : Crypto) where
  | data (relayed : Bool) (id : UInt32) (chunk : Bytes)
  | other (relayed : Bool) (payload : Bytes)
  | op (op : SessionOp C)
  | receiverOp (op : SessionOp C)
  /-- `opens` is the verdict of the AEAD on the frame. -/
  | arrive (k now : ℕ) (opens : NonceDirection → C.Key → Bool)
  | establish (k : ℕ)
  | channel (id : UInt32)
  | closeTunnel (id : UInt32)
  | closeChannel (id : UInt32)

/-- The number a message gets. A relayed payload is sealed under the session of the relay; of its
own session it takes the transmit counter only. -/
def takeCounter (relayed : Bool) (s : Session C) : ℕ × Session C :=
  if relayed then s.nextTxCounter else (s.sealMaterial.1.counter, s.sealMaterial.2)

/-- The way of a direct message up to the replay window: whether it gets past it. It is opened,
placeholders take no place in the window, a frame of a prepared epoch installs it, and the window is
not asked about a retired one. -/
def admitFrame (s : Session C) (now epoch ctr : ℕ) (opens : NonceDirection → C.Key → Bool)
    (payload : Bytes) : Bool × Session C :=
  match s.openReceivedFrame now epoch ctr opens with
  | (false, s) => (false, s)
  | (true, s) =>
      if startsWith payload "DUMMY!" then (true, s)
      else
        let s := if s.epoch < epoch then (s.activateEpoch now epoch).2 else s
        if epoch < s.epoch then (true, s) else s.checkInbound now ctr

/-- The streams a payload opens at the receiver: that of an OK or of a CONNECT. -/
def openedBy (payload : Bytes) : List UInt32 :=
  (if isOk payload then [okStream payload] else []) ++
    if looksLikeDest payload then [connectStream payload] else []

namespace Link

def start (s r : Session C) : Link C where
  sender := s
  receiver := r
  flight := []
  streams _ := .empty
  connecting := []
  opening _ := none
  chunks _ := []

def checkIn (w : Link C) (now : ℕ) (opens : NonceDirection → C.Key → Bool) (p : Packet) :
    Bool × Session C :=
  if p.relayed then (true, w.receiver) else admitFrame w.receiver now p.epoch p.ctr opens p.payload

/-- An action that is not possible changes nothing. -/
def step (role : SessionRole) (vpn : Bool) (w : Link C) : LinkAct C → Link C
  | .data relayed id chunk =>
      let (ctr, sender) := takeCounter relayed w.sender
      { w with
        sender := sender
        flight := w.flight ++ [{ relayed := relayed, epoch := w.sender.epoch, ctr := ctr
                                 payload := toBeBytes 4 id.toNat ++ chunk
                                 chunkOf := some (id, chunk) }]
        chunks := update w.chunks id (w.chunks id ++ [chunk]) }
  | .other relayed payload =>
      let (ctr, sender) := takeCounter relayed w.sender
      { w with
        sender := sender
        flight := w.flight ++ [{ relayed := relayed, epoch := w.sender.epoch, ctr := ctr
                                 payload := payload, chunkOf := none }]
        opening := fun id => if id ∈ openedBy payload then some ctr else w.opening id }
  | .op op => { w with sender := op.run w.sender }
  | .receiverOp op => { w with receiver := op.run w.receiver }
  | .arrive k now opens =>
      match w.flight[k]? with
      | none => w
      | some p =>
          let (admitted, receiver) := w.checkIn now opens p
          if admitted then
            let h :=
              handlePayload (pathOf vpn p.relayed p.ctr) (openStreams role w.streams) p.payload
            { w with
              receiver := receiver
              flight := w.flight.eraseIdx k
              streams := applyHandling w.streams p.ctr h
              connecting :=
                if h = .connect then (connectStream p.payload, p.ctr) :: w.connecting
                else w.connecting }
          else { w with receiver := receiver, flight := w.flight.eraseIdx k }
  | .establish k =>
      match w.connecting[k]? with
      | none => w
      | some (id, ctr) =>
          { w with
            connecting := w.connecting.eraseIdx k
            streams := update w.streams id ((w.streams id).establish ctr) }
  | .channel id =>
      { w with
        streams := update w.streams id { w.streams id with channel := some [] } }
  | .closeTunnel id =>
      { w with streams := update w.streams id { w.streams id with tunnel := none } }
  | .closeChannel id =>
      { w with streams := update w.streams id { w.streams id with channel := none } }

/-- A chunk of the stream with this counter is on its way. -/
def InFlight (w : Link C) (id : UInt32) (ctr : ℕ) : Prop :=
  ∃ p ∈ w.flight, p.chunkOf.map Prod.fst = some id ∧ p.ctr = ctr

/-- Every open stream has given out its chunks in the order they were sent, and all of them once
none is on its way. -/
def Delivered (w : Link C) : Prop :=
  ∀ id, id ≠ 0 → ∀ rx out, (w.streams id).receiver = some (rx, out) →
    out <+: w.chunks id ∧
      ((∀ p ∈ w.flight, ∀ chunk, p.chunkOf ≠ some (id, chunk)) → out = w.chunks id)

/-- A stream that has no receiver yet, and of which nothing has arrived. -/
def Untouched (w : Link C) (id : UInt32) (ctr : ℕ) : Prop :=
  (w.streams id).receiver.isNone = true ∧
    ∀ i < (w.chunks id).length, w.InFlight id (ctr + 1 + i)

instance (w : Link C) (id : UInt32) (ctr : ℕ) : Decidable (w.InFlight id ctr) :=
  inferInstanceAs (Decidable (∃ p ∈ w.flight, _))

instance (w : Link C) (id : UInt32) (ctr : ℕ) : Decidable (w.Untouched id ctr) :=
  inferInstanceAs (Decidable (_ ∧ ∀ i < (w.chunks id).length, w.InFlight id (ctr + 1 + i)))

/-- When a message may arrive: no chunk before its stream is open or after it is closed, or where
the chain or the replay window refuses it, and an OK before the chunks. -/
def MayArrive (role : SessionRole) (vpn : Bool) (w : Link C) (now : ℕ)
    (opens : NonceDirection → C.Key → Bool) (p : Packet) : Prop :=
  match p.chunkOf with
  | some (id, _) =>
      (w.checkIn now opens p).1 = true ∧ (w.streams id).receiver.isSome = true ∧
        Accepts (pathOf vpn p.relayed p.ctr) (openStreams role w.streams) id
  | none => (w.checkIn now opens p).1 = true → isOk p.payload = true → okStream p.payload ≠ 0 →
      w.Untouched (okStream p.payload) p.ctr

instance (role : SessionRole) (vpn : Bool) (w : Link C) (now : ℕ)
    (opens : NonceDirection → C.Key → Bool) (p : Packet) :
    Decidable (w.MayArrive role vpn now opens p) :=
  match hp : p.chunkOf with
  | some (id, _) => decidable_of_iff ((w.checkIn now opens p).1 = true ∧
      (w.streams id).receiver.isSome = true ∧
      Accepts (pathOf vpn p.relayed p.ctr) (openStreams role w.streams) id) (by rw [MayArrive, hp])
  | none => decidable_of_iff ((w.checkIn now opens p).1 = true → isOk p.payload = true →
      okStream p.payload ≠ 0 → w.Untouched (okStream p.payload) p.ctr) (by rw [MayArrive, hp])

/-- The steps the numbering of the chunks survives. -/
def Undisturbed (role : SessionRole) (vpn : Bool) (w : Link C) : LinkAct C → Prop
  -- the chunk gets the number after that of the last one of its stream
  | .data relayed id chunk =>
      id ≠ 0 ∧
        Unclaimed (pathOf vpn relayed (takeCounter relayed w.sender).1)
          (toBeBytes 4 id.toNat ++ chunk) ∧
        (w.opening id).map (· + 1 + (w.chunks id).length) = some (takeCounter relayed w.sender).1
  -- no other message is like a chunk, and a stream is opened once
  | .other relayed payload =>
      ¬ Unclaimed (pathOf vpn relayed (takeCounter relayed w.sender).1) payload ∧
        ∀ id ∈ openedBy payload, id ≠ 0 → w.opening id = none
  | .arrive k now opens => ∀ p ∈ w.flight[k]?, w.MayArrive role vpn now opens p
  | .establish k => ∀ c ∈ w.connecting[k]?, c.1 ≠ 0 → w.Untouched c.1 c.2
  | .channel id => (w.streams id).okCtr = none
  | _ => True

instance (role : SessionRole) (vpn : Bool) (w : Link C) (act : LinkAct C) :
    Decidable (w.Undisturbed role vpn act) :=
  match act with
  | .data .. => inferInstanceAs (Decidable (_ ∧ _ ∧ _))
  | .other _ payload =>
      have : Decidable (∀ id ∈ openedBy payload, id ≠ 0 → w.opening id = none) :=
        decidableBAll (fun id => id ≠ 0 → w.opening id = none) (openedBy payload)
      inferInstanceAs (Decidable (_ ∧ ∀ id ∈ openedBy payload, id ≠ 0 → w.opening id = none))
  | .arrive k now opens =>
      inferInstanceAs (Decidable (∀ p ∈ w.flight[k]?, w.MayArrive role vpn now opens p))
  | .establish k =>
      inferInstanceAs (Decidable (∀ c ∈ w.connecting[k]?, c.1 ≠ 0 → w.Untouched c.1 c.2))
  | .channel id => inferInstanceAs (Decidable ((w.streams id).okCtr = none))
  | .op _ | .receiverOp _ | .closeTunnel _ | .closeChannel _ => inferInstanceAs (Decidable True)

/-! ### The invariant -/

/-- What holds of one stream. -/
structure StreamOk (w : Link C) (id : UInt32) : Prop where
  received : ∀ rx out, (w.streams id).receiver = some (rx, out) →
    ∃ a next, w.opening id = some a ∧ Delivers (a + 1) (w.chunks id) rx out next ∧
      ∀ i < (w.chunks id).length, Seen next rx.buf (a + 1 + i) ∨ w.InFlight id (a + 1 + i)
  -- a channel gives out nothing before its OK
  silent : ∀ out, (w.streams id).okCtr = none → (w.streams id).channel = some out → out = []
  -- no stream has both a tunnel and an open channel
  apart : (w.streams id).tunnel = none ∨ (w.streams id).okCtr = none ∨
    (w.streams id).channel = none

/-- A chunk on its way. -/
structure ChunkOk (vpn : Bool) (w : Link C) (p : Packet) (id : UInt32) (chunk : Bytes) : Prop where
  nonzero : id ≠ 0
  payload_eq : p.payload = toBeBytes 4 id.toNat ++ chunk
  unclaimed : Unclaimed (pathOf vpn p.relayed p.ctr) p.payload
  numbered : ∃ a, w.opening id = some a ∧ a + 1 ≤ p.ctr ∧
    (w.chunks id)[p.ctr - (a + 1)]? = some chunk

/-- Any other message on its way. -/
structure OtherOk (vpn : Bool) (w : Link C) (p : Packet) : Prop where
  claimed : ¬ Unclaimed (pathOf vpn p.relayed p.ctr) p.payload
  opens : ∀ id ∈ openedBy p.payload, id ≠ 0 → w.opening id = some p.ctr

structure Inv (vpn : Bool) (w : Link C) : Prop where
  chunk : ∀ p ∈ w.flight, ∀ id chunk, p.chunkOf = some (id, chunk) → w.ChunkOk vpn p id chunk
  other : ∀ p ∈ w.flight, p.chunkOf = none → w.OtherOk vpn p
  connecting : ∀ c ∈ w.connecting, c.1 ≠ 0 → w.opening c.1 = some c.2
  streams : ∀ id, id ≠ 0 → w.StreamOk id

theorem inv_start (vpn : Bool) (s r : Session C) : Inv vpn (start s r) where
  chunk p hp := absurd hp not_mem_nil
  other p hp := absurd hp not_mem_nil
  connecting c hc := absurd hc not_mem_nil
  streams id _ :=
    { received := fun rx out h => by cases h
      silent := fun out _ h => by cases h
      apart := Or.inl rfl }

variable {w' : Link C} {id : UInt32}

theorem StreamOk.of_same {w : Link C} (h : w.StreamOk id) (hstream : w'.streams id = w.streams id)
    (hopening : w'.opening id = w.opening id) (hchunks : w'.chunks id = w.chunks id)
    (hflight : ∀ ctr, w.InFlight id ctr → w'.InFlight id ctr) : w'.StreamOk id where
  received rx out hrx := by
    rw [hstream] at hrx
    obtain ⟨a, next, ha, hdelivers, hall⟩ := h.received rx out hrx
    rw [hopening, hchunks]
    refine ⟨a, next, ha, hdelivers, fun i hi => ?_⟩
    rcases hall i hi with hseen | hin
    · exact Or.inl hseen
    · exact Or.inr (hflight _ hin)
  silent out := by
    rw [hstream]
    exact h.silent out
  apart := by
    rw [hstream]
    exact h.apart

theorem inv_data {role : SessionRole} {vpn : Bool} {w : Link C} (h : Inv vpn w) {relayed : Bool}
    {chunk : Bytes} (hguard : w.Undisturbed role vpn (.data relayed id chunk)) :
    Inv vpn (w.step role vpn (.data relayed id chunk)) := by
  obtain ⟨hid, hclear, hnumber⟩ := hguard
  obtain ⟨a, ha, hctr⟩ := Option.map_eq_some_iff.mp hnumber
  refine { chunk := ?_, other := ?_, connecting := h.connecting, streams := ?_ }
  · intro p hp id' chunk' hp'
    rcases mem_append.mp hp with hold | hnew
    · obtain ⟨hid', hpayload, hclear', a', ha', hle, hitem⟩ := h.chunk p hold id' chunk' hp'
      refine ⟨hid', hpayload, hclear', a', ha', hle, ?_⟩
      show (update w.chunks id (w.chunks id ++ [chunk]) id')[_]? = _
      by_cases hsame : id' = id
      · subst hsame
        obtain ⟨hlt, -⟩ := List.getElem?_eq_some_iff.mp hitem
        rw [update_self, getElem?_append_left hlt]
        exact hitem
      · rw [update_of_ne hsame]
        exact hitem
    · rw [mem_singleton.mp hnew] at hp' ⊢
      obtain ⟨rfl, rfl⟩ := Prod.mk.inj (Option.some.inj hp')
      have hle : a + 1 ≤ (takeCounter relayed w.sender).1 := by omega
      refine ⟨hid, rfl, hclear, a, ha, hle, ?_⟩
      show (update w.chunks id (w.chunks id ++ [chunk]) id)[
        (takeCounter relayed w.sender).1 - (a + 1)]? = _
      rw [update_self, ← hctr, Nat.add_sub_cancel_left]
      simp
  · intro p hp hp'
    rcases mem_append.mp hp with hold | hnew
    · exact ⟨(h.other p hold hp').claimed, (h.other p hold hp').opens⟩
    · rw [mem_singleton.mp hnew] at hp'
      cases hp'
  · intro id' hid'
    by_cases hsame : id' = id
    · subst hsame
      have hok := h.streams id' hid'
      refine { received := ?_, silent := hok.silent, apart := hok.apart }
      intro rx out hrx
      obtain ⟨a', next, ha', hdelivers, hall⟩ := hok.received rx out hrx
      obtain rfl : a' = a := Option.some.inj (ha'.symm.trans ha)
      have hchunks : (w.step role vpn (.data relayed id' chunk)).chunks id' =
          w.chunks id' ++ [chunk] := update_self _ _ _
      rw [hchunks]
      refine ⟨a', next, ha, hdelivers.append chunk, ?_⟩
      intro i hi
      rw [length_append, length_singleton] at hi
      by_cases hlast : i = (w.chunks id').length
      · refine Or.inr ⟨_, mem_append_right _ (mem_singleton_self _), rfl, ?_⟩
        rw [hlast]
        exact hctr.symm
      · rcases hall i (by omega) with hseen | ⟨p, hp, hpid, hpctr⟩
        · exact Or.inl hseen
        · exact Or.inr ⟨p, mem_append_left _ hp, hpid, hpctr⟩
    · refine (h.streams id' hid').of_same rfl rfl (update_of_ne hsame _ _) ?_
      rintro ctr ⟨p, hp, hpid, hpctr⟩
      exact ⟨p, mem_append_left _ hp, hpid, hpctr⟩

theorem inv_other {role : SessionRole} {vpn : Bool} {w : Link C} (h : Inv vpn w) {relayed : Bool}
    {payload : Bytes} (hguard : w.Undisturbed role vpn (.other relayed payload)) :
    Inv vpn (w.step role vpn (.other relayed payload)) := by
  obtain ⟨hclaimed, honce⟩ := hguard
  have hkept : ∀ id, id ≠ 0 → ∀ a, w.opening id = some a →
      (w.step role vpn (.other relayed payload)).opening id = some a := by
    intro id hid a ha
    show (if id ∈ openedBy payload then _ else w.opening id) = some a
    rw [if_neg, ha]
    intro hmem
    rw [honce id hmem hid] at ha
    cases ha
  refine { chunk := ?_, other := ?_, connecting := ?_, streams := ?_ }
  · intro p hp id chunk hp'
    rcases mem_append.mp hp with hold | hnew
    · obtain ⟨hid, hpayload, hclear, a, ha, hnumber⟩ := h.chunk p hold id chunk hp'
      exact ⟨hid, hpayload, hclear, a, hkept id hid a ha, hnumber⟩
    · rw [mem_singleton.mp hnew] at hp'
      cases hp'
  · intro p hp hp'
    rcases mem_append.mp hp with hold | hnew
    · have hok := h.other p hold hp'
      exact ⟨hok.claimed, fun id hmem hid => hkept id hid _ (hok.opens id hmem hid)⟩
    · rw [mem_singleton.mp hnew]
      exact ⟨hclaimed, fun id hmem _ => if_pos hmem⟩
  · intro c hc hid
    exact hkept c.1 hid c.2 (h.connecting c hc hid)
  · intro id hid
    have hok := h.streams id hid
    refine { received := ?_, silent := hok.silent, apart := hok.apart }
    intro rx out hrx
    obtain ⟨a, next, ha, hdelivers, hall⟩ := hok.received rx out hrx
    refine ⟨a, next, hkept id hid a ha, hdelivers, fun i hi => ?_⟩
    rcases hall i hi with hseen | ⟨p, hp, hpid, hpctr⟩
    · exact Or.inl hseen
    · exact Or.inr ⟨p, mem_append_left _ hp, hpid, hpctr⟩

/-! ### Arriving -/

theorem inFlight_eraseIdx {w : Link C} {k : ℕ} {p : Packet} (hp : w.flight[k]? = some p)
    (hflight : w'.flight = w.flight.eraseIdx k) {ctr : ℕ} (h : w.InFlight id ctr) :
    w'.InFlight id ctr ∨ (p.chunkOf.map Prod.fst = some id ∧ p.ctr = ctr) := by
  obtain ⟨q, hq, hqid, hqctr⟩ := h
  obtain ⟨i, hi⟩ := getElem?_of_mem hq
  by_cases hik : i = k
  · subst hik
    rw [hp] at hi
    cases hi
    exact Or.inr ⟨hqid, hqctr⟩
  · refine Or.inl ⟨q, ?_, hqid, hqctr⟩
    rw [hflight]
    exact mem_eraseIdx_iff_getElem?.mpr ⟨i, hik, hi⟩

theorem streamOk_chunk {w : Link C} (h : w.StreamOk id) {vpn : Bool} {k : ℕ} {p : Packet}
    {chunk : Bytes} (hp : w.flight[k]? = some p) (hchunk : w.ChunkOk vpn p id chunk)
    (hflight : w'.flight = w.flight.eraseIdx k) (hopening : w'.opening = w.opening)
    (hchunks : w'.chunks = w.chunks) (hopen : (w.streams id).receiver.isSome = true)
    (hstream : ((w.streams id).tunnel.isSome = true ∧
        w'.streams id = (w.streams id).tunnelData p.ctr chunk) ∨
      ((w.streams id).tunnel = none ∧ w'.streams id = (w.streams id).channelData p.ctr chunk)) :
    w'.StreamOk id := by
  obtain ⟨⟨rx, out⟩, hrx⟩ := Option.isSome_iff_exists.mp hopen
  obtain ⟨a, next, ha, hdelivers, hall⟩ := h.received rx out hrx
  obtain ⟨a', ha', hle, hitem⟩ := hchunk.numbered
  obtain rfl : a' = a := Option.some.inj (ha'.symm.trans ha)
  obtain ⟨next', hdelivers', hseen'⟩ := hdelivers.push hle hitem
  -- whichever table it is in, the receiver is pushed the chunk
  have hreceiver : (w'.streams id).receiver =
      some ((rxPush rx p.ctr chunk).2, out ++ (rxPush rx p.ctr chunk).1) := by
    rcases hstream with ⟨htunnel, heq⟩ | ⟨htunnel, heq⟩
    · obtain ⟨t, ht⟩ := Option.isSome_iff_exists.mp htunnel
      have hrx' : some (t.rx, t.out) = some (rx, out) := by
        rw [← hrx, StreamRx.receiver, ht]
      cases hrx'
      rw [heq, StreamRx.receiver_tunnelData ht]
    · rw [heq, StreamRx.receiver_channelData htunnel hrx hdelivers'.next_eq]
  refine { received := ?_, silent := ?_, apart := ?_ }
  · intro rx' out' hrx'
    rw [hreceiver] at hrx'
    cases hrx'
    rw [hopening, hchunks]
    refine ⟨a', next', ha, hdelivers', fun i hi => ?_⟩
    rcases hall i hi with hseen | hin
    · exact Or.inl ((hseen' _).mpr (Or.inl hseen))
    · rcases inFlight_eraseIdx hp hflight hin with hstill | ⟨-, hctr⟩
      · exact Or.inr hstill
      · exact Or.inl ((hseen' _).mpr (Or.inr hctr.symm))
  · intro out' hok hchannel
    rcases hstream with ⟨htunnel, heq⟩ | ⟨htunnel, heq⟩
    · obtain ⟨t, ht⟩ := Option.isSome_iff_exists.mp htunnel
      rw [heq] at hok hchannel
      simp only [StreamRx.tunnelData, ht] at hok hchannel
      exact h.silent out' hok hchannel
    · obtain ⟨hsome, ⟨ok, hok'⟩, -⟩ := StreamRx.receiver_channel htunnel hrx
      rw [heq] at hok
      simp only [StreamRx.channelData, hsome, hok'] at hok
      cases hok
  · rcases hstream with ⟨htunnel, heq⟩ | ⟨htunnel, heq⟩
    · obtain ⟨t, ht⟩ := Option.isSome_iff_exists.mp htunnel
      rw [heq]
      simp only [StreamRx.tunnelData, ht]
      exact Or.inr (h.apart.resolve_left (by rw [ht]; exact Option.some_ne_none t))
    · left
      obtain ⟨hsome, -, -⟩ := StreamRx.receiver_channel htunnel hrx
      rw [heq]
      simp only [StreamRx.channelData, hsome, htunnel]

theorem Inv.of_streams {vpn : Bool} {w : Link C} (h : Inv vpn w)
    (hflight : ∀ p ∈ w'.flight, p ∈ w.flight) (hopening : w'.opening = w.opening)
    (hchunks : w'.chunks = w.chunks)
    (hconnecting : ∀ c ∈ w'.connecting, c.1 ≠ 0 → w.opening c.1 = some c.2)
    (hstreams : ∀ id, id ≠ 0 → w'.StreamOk id) : Inv vpn w' where
  chunk p hp id chunk hp' := by
    obtain ⟨hid, hpayload, hclear, hnumber⟩ := h.chunk p (hflight p hp) id chunk hp'
    refine ⟨hid, hpayload, hclear, ?_⟩
    rw [hopening, hchunks]
    exact hnumber
  other p hp hp' := by
    obtain ⟨hclaimed, hopens⟩ := h.other p (hflight p hp) hp'
    refine ⟨hclaimed, ?_⟩
    rw [hopening]
    exact hopens
  connecting := by
    rw [hopening]
    exact hconnecting
  streams := hstreams

theorem streamOk_update {w : Link C} {s : StreamRx} (h : ∀ id, id ≠ 0 → w.StreamOk id)
    (hstreams : w'.streams = update w.streams id s) (hopening : w'.opening = w.opening)
    (hchunks : w'.chunks = w.chunks)
    (hflight : ∀ id' ≠ id, ∀ ctr, w.InFlight id' ctr → w'.InFlight id' ctr)
    (hself : id ≠ 0 → w'.StreamOk id) (id' : UInt32) (hid' : id' ≠ 0) : w'.StreamOk id' := by
  by_cases hsame : id' = id
  · subst hsame
    exact hself hid'
  · refine (h id' hid').of_same ?_ (congrFun hopening id') (congrFun hchunks id') (hflight id' hsame)
    rw [hstreams, update_of_ne hsame]

theorem streamOk_of_shut {w : Link C} (htunnel : (w.streams id).tunnel = none)
    (hchannel : (w.streams id).channel = none) : w.StreamOk id where
  received rx out h := by
    obtain ⟨hsome, -, -⟩ := StreamRx.receiver_channel htunnel h
    rw [hchannel] at hsome
    cases hsome
  silent out _ h := by
    rw [hchannel] at h
    cases h
  apart := Or.inl htunnel

theorem streamOk_of_anchored {w : Link C} {ctr : ℕ} (h : w.Untouched id ctr)
    (hopening : w'.opening id = some ctr) (hchunks : w'.chunks id = w.chunks id)
    (hflight : ∀ c, w.InFlight id c → w'.InFlight id c)
    (hreceiver : ∀ rx out, (w'.streams id).receiver = some (rx, out) →
      rx = { next := some (ctr + 1), buf := ∅ } ∧ out = [])
    (hsilent : ∀ out, (w'.streams id).okCtr = none → (w'.streams id).channel = some out → out = [])
    (hapart : (w'.streams id).tunnel = none ∨ (w'.streams id).okCtr = none ∨
      (w'.streams id).channel = none) : w'.StreamOk id where
  received rx out hrx := by
    obtain ⟨rfl, rfl⟩ := hreceiver rx out hrx
    rw [hchunks]
    refine ⟨ctr, ctr + 1, hopening, delivers_new (ctr + 1) (w.chunks id), fun i hi => ?_⟩
    exact Or.inr (hflight _ (h.2 i hi))
  silent := hsilent
  apart := hapart

theorem streamOk_of_connectOk {w : Link C} {ctr : ℕ} (hok : w.StreamOk id) (h : w.Untouched id ctr)
    (hopening : w'.opening id = some ctr) (hchunks : w'.chunks id = w.chunks id)
    (hflight : ∀ c, w.InFlight id c → w'.InFlight id c)
    (hstream : w'.streams id = (w.streams id).connectOk ctr) : w'.StreamOk id := by
  obtain ⟨htunnel, hchannel⟩ := StreamRx.tunnel_of_receiver h.1
  refine streamOk_of_anchored h hopening hchunks hflight ?_ ?_ ?_
  · intro rx out hrx
    rw [hstream] at hrx
    have htunnel' : ((w.streams id).connectOk ctr).tunnel = none := htunnel
    obtain ⟨hsome, -, hwindow⟩ := StreamRx.receiver_channel htunnel' hrx
    have hnone : (w.streams id).okCtr = none := by
      refine hchannel.resolve_right ?_
      intro hshut
      exact Option.some_ne_none out (hsome.symm.trans hshut)
    exact ⟨hwindow.symm, hok.silent out hnone hsome⟩
  · intro out hnone
    rw [hstream] at hnone
    cases hnone
  · rw [hstream]
    exact Or.inl htunnel

variable {role : SessionRole} {vpn : Bool} {w : Link C} {k now : ℕ}
  {opens : NonceDirection → C.Key → Bool} {p : Packet}

theorem step_arrive (hp : w.flight[k]? = some p) (hcheck : (w.checkIn now opens p).1 = true)
    {a : Handling}
    (ha : handlePayload (pathOf vpn p.relayed p.ctr) (openStreams role w.streams) p.payload = a) :
    w.step role vpn (.arrive k now opens) =
      { w with
        receiver := (w.checkIn now opens p).2
        flight := w.flight.eraseIdx k
        streams := applyHandling w.streams p.ctr a
        connecting :=
          if a = .connect then (connectStream p.payload, p.ctr) :: w.connecting
          else w.connecting } := by
  rw [step, hp]
  dsimp only
  rw [ha, if_pos hcheck]

theorem step_arrive_refused (hp : w.flight[k]? = some p)
    (hcheck : ¬ (w.checkIn now opens p).1 = true) :
    w.step role vpn (.arrive k now opens) =
      { w with receiver := (w.checkIn now opens p).2, flight := w.flight.eraseIdx k } := by
  rw [step, hp]
  dsimp only
  rw [if_neg hcheck]

theorem flight_step_arrive (hp : w.flight[k]? = some p) :
    (w.step role vpn (.arrive k now opens)).flight = w.flight.eraseIdx k := by
  by_cases hcheck : (w.checkIn now opens p).1 = true
  · rw [step_arrive hp hcheck rfl]
  · rw [step_arrive_refused hp hcheck]

theorem inv_arrive_of (h : Inv vpn w) (hp : w.flight[k]? = some p)
    (hcheck : (w.checkIn now opens p).1 = true) {a : Handling}
    (ha : handlePayload (pathOf vpn p.relayed p.ctr) (openStreams role w.streams) p.payload = a)
    (hconnect : a = .connect → connectStream p.payload ≠ 0 →
      w.opening (connectStream p.payload) = some p.ctr)
    (hstreams : ∀ id, id ≠ 0 → (w.step role vpn (.arrive k now opens)).StreamOk id) :
    Inv vpn (w.step role vpn (.arrive k now opens)) := by
  rw [step_arrive hp hcheck ha] at hstreams ⊢
  refine h.of_streams ?_ rfl rfl ?_ hstreams
  · exact fun q hq => mem_of_mem_eraseIdx hq
  · intro c hc hid
    dsimp only at hc
    split at hc
    · rename_i hconn
      rcases mem_cons.mp hc with rfl | hold
      · exact hconnect hconn hid
      · exact h.connecting c hold hid
    · exact h.connecting c hc hid

theorem inv_arrive_chunk (h : Inv vpn w) (hp : w.flight[k]? = some p) {chunk : Bytes}
    (hchunk : p.chunkOf = some (id, chunk)) (hmay : w.MayArrive role vpn now opens p) :
    Inv vpn (w.step role vpn (.arrive k now opens)) := by
  have hok := h.chunk p (mem_of_getElem? hp) id chunk hchunk
  have hmay' : (w.checkIn now opens p).1 = true ∧ (w.streams id).receiver.isSome = true ∧
      Accepts (pathOf vpn p.relayed p.ctr) (openStreams role w.streams) id := by
    rw [MayArrive, hchunk] at hmay
    exact hmay
  obtain ⟨hcheck, hopen, haccepts⟩ := hmay'
  have hlisted : (openStreams role w.streams).tunnelOpen id = true ∨
      (openStreams role w.streams).channelOpen id = true := by
    show (w.streams id).tunnel.isSome = true ∨ (w.streams id).channel.isSome = true
    obtain ⟨⟨rx, out⟩, hrx⟩ := Option.isSome_iff_exists.mp hopen
    cases htunnel : (w.streams id).tunnel with
    | some t => exact Or.inl rfl
    | none =>
        obtain ⟨hsome, -, -⟩ := StreamRx.receiver_channel htunnel hrx
        rw [hsome]
        exact Or.inr rfl
  have hclear := hok.unclaimed
  rw [hok.payload_eq] at hclear
  have hdata := isData_of_unclaimed hlisted hclear haccepts
  rw [← hok.payload_eq] at hdata
  obtain ⟨hstreamData, -, -, hreaches⟩ := reachesStream_of_isData hdata
  rw [hstreamData] at hreaches
  -- the other streams keep their chunks on the way
  have hothers : ∀ id' ≠ id, ∀ ctr, w.InFlight id' ctr →
      (w.step role vpn (.arrive k now opens)).InFlight id' ctr := by
    intro id' hne ctr hin
    refine (inFlight_eraseIdx hp (flight_step_arrive hp) hin).resolve_right ?_
    · rintro ⟨hid', -⟩
      rw [hchunk] at hid'
      exact hne (Option.some.inj hid').symm
  rcases hreaches with ⟨htunnel, ha⟩ | ⟨htunnel, -, ha⟩
  · refine inv_arrive_of h hp hcheck ha (by rintro ⟨⟩) ?_
    rw [step_arrive hp hcheck ha] at hothers ⊢
    refine streamOk_update h.streams rfl rfl rfl hothers fun hid => ?_
    refine streamOk_chunk (h.streams id hid) hp hok rfl rfl rfl hopen (Or.inl ⟨htunnel, ?_⟩)
    exact update_self _ _ _
  · refine inv_arrive_of h hp hcheck ha (by rintro ⟨⟩) ?_
    rw [step_arrive hp hcheck ha] at hothers ⊢
    refine streamOk_update h.streams rfl rfl rfl hothers fun hid => ?_
    have htunnel' : (w.streams id).tunnel = none :=
      Option.isNone_iff_eq_none.mp (Option.isSome_eq_false_iff.mp htunnel)
    refine streamOk_chunk (h.streams id hid) hp hok rfl rfl rfl hopen (Or.inr ⟨htunnel', ?_⟩)
    exact update_self _ _ _

theorem inv_arrive_other (h : Inv vpn w) (hp : w.flight[k]? = some p) (hchunk : p.chunkOf = none)
    (hmay : w.MayArrive role vpn now opens p) :
    Inv vpn (w.step role vpn (.arrive k now opens)) := by
  have hok := h.other p (mem_of_getElem? hp) hchunk
  have hmay' : (w.checkIn now opens p).1 = true → isOk p.payload = true → okStream p.payload ≠ 0 →
      w.Untouched (okStream p.payload) p.ctr := by
    rw [MayArrive, hchunk] at hmay
    exact hmay
  -- every chunk on its way stays there
  have hstill : ∀ id ctr, w.InFlight id ctr →
      (w.step role vpn (.arrive k now opens)).InFlight id ctr := by
    intro id ctr hin
    refine (inFlight_eraseIdx hp (flight_step_arrive hp) hin).resolve_right ?_
    · rintro ⟨hid, -⟩
      rw [hchunk] at hid
      cases hid
  by_cases hcheck : (w.checkIn now opens p).1 = true
  case neg =>
    rw [step_arrive_refused hp hcheck] at hstill ⊢
    refine h.of_streams (fun q hq => mem_of_mem_eraseIdx hq) rfl rfl h.connecting ?_
    exact fun id hid => (h.streams id hid).of_same rfl rfl rfl (hstill id)
  have hsame : ∀ a, handlePayload (pathOf vpn p.relayed p.ctr) (openStreams role w.streams)
      p.payload = a → applyHandling w.streams p.ctr a = w.streams →
      ∀ id, id ≠ 0 → (w.step role vpn (.arrive k now opens)).StreamOk id := by
    intro a ha hkeep id hid
    rw [step_arrive hp hcheck ha, hkeep] at hstill ⊢
    exact (h.streams id hid).of_same rfl rfl rfl (hstill id)
  have hone : ∀ a, handlePayload (pathOf vpn p.relayed p.ctr) (openStreams role w.streams)
      p.payload = a → ∀ id s, applyHandling w.streams p.ctr a = update w.streams id s →
      (id ≠ 0 → (w.step role vpn (.arrive k now opens)).StreamOk id) →
      ∀ id', id' ≠ 0 → (w.step role vpn (.arrive k now opens)).StreamOk id' := by
    intro a ha id s hupdate hself
    rw [step_arrive hp hcheck ha, hupdate] at hstill hself ⊢
    exact streamOk_update h.streams rfl rfl rfl (fun id' _ => hstill id') hself
  have htaken := takenFor_handlePayload (pathOf vpn p.relayed p.ctr) (openStreams role w.streams)
    p.payload
  generalize ha : handlePayload (pathOf vpn p.relayed p.ctr) (openStreams role w.streams)
    p.payload = a at htaken
  cases htaken with
  | control hcontrol =>
      have hnot : a ≠ .connect := by
        rintro rfl
        cases hcontrol
      refine inv_arrive_of h hp hcheck ha (absurd · hnot) ?_
      rcases applyHandling_of_isControl hcontrol w.streams p.ctr with rfl | hkeep
      · intro id _
        rw [step_arrive hp hcheck ha]
        exact streamOk_of_shut rfl rfl
      · exact hsame _ ha hkeep
  | dropped => exact inv_arrive_of h hp hcheck ha (by rintro ⟨⟩) (hsame _ ha rfl)
  | close id =>
      refine inv_arrive_of h hp hcheck ha (by rintro ⟨⟩) ?_
      cases id with
      | none => exact hsame _ ha rfl
      | some id =>
          refine hone _ ha id (w.streams id).close rfl fun _ => ?_
          have hclosed : (w.step role vpn (.arrive k now opens)).streams id =
              (w.streams id).close := by
            rw [step_arrive hp hcheck ha]
            exact update_self _ _ _
          refine streamOk_of_shut ?_ ?_
          · rw [hclosed, StreamRx.close]
          · rw [hclosed, StreamRx.close]
  | connectOk hisOk =>
      refine inv_arrive_of h hp hcheck ha (by rintro ⟨⟩) ?_
      refine hone _ ha (okStream p.payload) ((w.streams (okStream p.payload)).connectOk p.ctr)
        rfl fun hid => ?_
      have huntouched := hmay' hcheck hisOk hid
      have hopens : w.opening (okStream p.payload) = some p.ctr := by
        refine hok.opens _ ?_ hid
        rw [openedBy, if_pos hisOk]
        exact mem_append_left _ (mem_singleton_self _)
      have hstream : (w.step role vpn (.arrive k now opens)).streams (okStream p.payload) =
          (w.streams (okStream p.payload)).connectOk p.ctr := by
        rw [step_arrive hp hcheck ha]
        exact update_self _ _ _
      refine streamOk_of_connectOk (h.streams _ hid) huntouched ?_ ?_ (hstill _) hstream
      · rw [step_arrive hp hcheck ha]
        exact hopens
      · rw [step_arrive hp hcheck ha]
  | connect hdest =>
      refine inv_arrive_of h hp hcheck ha (fun _ => hok.opens _ ?_) (hsame _ ha rfl)
      rw [openedBy, if_pos hdest]
      exact mem_append_right _ (mem_singleton_self _)
  | data hreaches =>
      obtain ⟨hclear, -, hreaches⟩ := hreaches
      have hzero : (streamData p.payload).1 = 0 := by
        by_contra hid
        exact hok.claimed (hclear hid)
      rw [hzero] at hreaches
      rcases hreaches with ⟨-, hdata⟩ | ⟨-, -, hdata⟩
      · exact inv_arrive_of h hp hcheck hdata (by rintro ⟨⟩) (hone _ hdata 0 _ rfl (absurd rfl))
      · exact inv_arrive_of h hp hcheck hdata (by rintro ⟨⟩) (hone _ hdata 0 _ rfl (absurd rfl))

/-! ### Every step -/

theorem inv_establish (h : Inv vpn w)
    (hguard : w.Undisturbed role vpn (.establish k)) :
    Inv vpn (w.step role vpn (.establish k)) := by
  cases hk : w.connecting[k]? with
  | none =>
      rw [step, hk]
      exact h
  | some c =>
      obtain ⟨id, ctr⟩ := c
      have hstep : w.step role vpn (.establish k) =
          { w with
            connecting := w.connecting.eraseIdx k
            streams := update w.streams id ((w.streams id).establish ctr) } := by
        rw [step, hk]
      have hopening := h.connecting (id, ctr) (mem_of_getElem? hk)
      rw [hstep]
      refine h.of_streams (fun p hp => hp) rfl rfl ?_ ?_
      · exact fun c hc hid => h.connecting c (mem_of_mem_eraseIdx hc) hid
      refine streamOk_update h.streams rfl rfl rfl (fun _ _ _ hin => hin) fun hid => ?_
      have huntouched := hguard (id, ctr) (by rw [hk]; rfl) hid
      obtain ⟨-, hchannel⟩ := StreamRx.tunnel_of_receiver huntouched.1
      refine streamOk_of_anchored huntouched (hopening hid) rfl (fun _ hin => hin) ?_ ?_ ?_
      · intro rx out hrx
        dsimp only at hrx
        rw [update_self] at hrx
        cases hrx
        exact ⟨rfl, rfl⟩
      · dsimp only
        rw [update_self]
        exact (h.streams id hid).silent
      · dsimp only
        rw [update_self]
        exact Or.inr hchannel

/-- One stream changes, and its receiver is the old one or none. -/
theorem Inv.set_stream (h : Inv vpn w) {s : StreamRx}
    (hreceiver : w.StreamOk id → ∀ r, s.receiver = some r → (w.streams id).receiver = some r)
    (hsilent : w.StreamOk id → ∀ out, s.okCtr = none → s.channel = some out → out = [])
    (hapart : s.tunnel = none ∨ s.okCtr = none ∨ s.channel = none) :
    Inv vpn { w with streams := update w.streams id s } := by
  refine h.of_streams (fun p hp => hp) rfl rfl h.connecting ?_
  refine streamOk_update h.streams rfl rfl rfl (fun _ _ _ hin => hin) fun hid => ?_
  have hok := h.streams id hid
  have hstream : update w.streams id s id = s := update_self _ _ _
  refine { received := ?_, silent := ?_, apart := ?_ } <;> dsimp only <;> rw [hstream]
  · exact fun rx out hrx => hok.received rx out (hreceiver hok _ hrx)
  · exact hsilent hok
  · exact hapart

theorem inv_channel (h : Inv vpn w) (hguard : w.Undisturbed role vpn (.channel id)) :
    Inv vpn (w.step role vpn (.channel id)) := by
  have hnone : (w.streams id).okCtr = none := hguard
  refine h.set_stream (fun _ r hr => ?_) (fun _ out _ hout => (Option.some.inj hout).symm)
    (Or.inr (Or.inl hnone))
  cases htunnel : (w.streams id).tunnel with
  | none =>
      obtain ⟨-, ⟨ok, hok⟩, -⟩ := StreamRx.receiver_channel
        (s := { w.streams id with channel := some [] }) htunnel hr
      exact absurd (hok.symm.trans hnone) (Option.some_ne_none ok)
  | some t => rw [← hr, StreamRx.receiver, StreamRx.receiver, htunnel]

theorem inv_closeTunnel (h : Inv vpn w) : Inv vpn (w.step role vpn (.closeTunnel id)) := by
  refine h.set_stream (fun hok r hr => ?_) StreamOk.silent (Or.inl rfl)
  obtain ⟨hchannel, ⟨ok, hokCtr⟩, -⟩ := StreamRx.receiver_channel rfl hr
  -- the channel is open, so there was no tunnel
  have htunnel : (w.streams id).tunnel = none := by
    refine hok.apart.resolve_right ?_
    rintro (hnone | hnone)
    · exact Option.some_ne_none ok (hokCtr.symm.trans hnone)
    · exact Option.some_ne_none r.2 (hchannel.symm.trans hnone)
  rw [← hr, StreamRx.receiver, StreamRx.receiver, htunnel]
  rfl

theorem inv_closeChannel (h : Inv vpn w) : Inv vpn (w.step role vpn (.closeChannel id)) := by
  refine h.set_stream (fun _ r hr => ?_) (fun _ out _ hout => by cases hout) (Or.inr (Or.inr rfl))
  cases htunnel : (w.streams id).tunnel with
  | none =>
      obtain ⟨hchannel, -, -⟩ := StreamRx.receiver_channel
        (s := { w.streams id with channel := none }) htunnel hr
      cases hchannel
  | some t => rw [← hr, StreamRx.receiver, StreamRx.receiver, htunnel]

theorem Inv.step (h : Inv vpn w) {act : LinkAct C}
    (hguard : w.Undisturbed role vpn act) : Inv vpn (w.step role vpn act) := by
  cases act with
  | data relayed id chunk => exact inv_data h hguard
  | other relayed payload => exact inv_other h hguard
  | op op =>
      refine h.of_streams (fun p hp => hp) rfl rfl h.connecting fun id hid => ?_
      exact (h.streams id hid).of_same rfl rfl rfl fun _ hin => hin
  | receiverOp op =>
      refine h.of_streams (fun p hp => hp) rfl rfl h.connecting fun id hid => ?_
      exact (h.streams id hid).of_same rfl rfl rfl fun _ hin => hin
  | arrive k now opens =>
      cases hp : w.flight[k]? with
      | none =>
          rw [Link.step, hp]
          exact h
      | some p =>
          have hmay : w.MayArrive role vpn now opens p := hguard p (by rw [hp]; rfl)
          cases hchunk : p.chunkOf with
          | some c => exact inv_arrive_chunk h hp hchunk hmay
          | none => exact inv_arrive_other h hp hchunk hmay
  | establish k => exact inv_establish h hguard
  | channel id => exact inv_channel h hguard
  | closeTunnel id => exact inv_closeTunnel h
  | closeChannel id => exact inv_closeChannel h

theorem Inv.delivered {vpn : Bool} {w : Link C} (h : Inv vpn w) : w.Delivered := by
  intro id hid rx out hrx
  obtain ⟨a, next, -, hdelivers, hall⟩ := (h.streams id hid).received rx out hrx
  refine ⟨hdelivers.out_initial, fun hnone => hdelivers.eq_of_seen fun i hi => ?_⟩
  refine (hall i hi).resolve_right ?_
  rintro ⟨p, hp, hpid, -⟩
  obtain ⟨⟨id', chunk⟩, hchunk, rfl⟩ := Option.map_eq_some_iff.mp hpid
  exact hnone p hp chunk hchunk

/-- The frame opens under the first key that is tried. -/
def arriveNow (k : ℕ) : LinkAct .symbolic := .arrive k 0 fun _ _ => true

/-- A CONNECT for stream 1, and two chunks that arrive in the other order. -/
def oneStream : List (LinkAct .symbolic) :=
  [.other false (utf8 "STREAM!1!x:80"), arriveNow 0, .establish 0, .data false 1 [65],
    .data false 1 [66], arriveNow 1, arriveNow 0]

def streamStart : Link .symbolic :=
  start (newWithRole (C := .symbolic) (Term.master 7) "exit" .initiator 0)
    (newWithRole (C := .symbolic) (Term.master 7) "client" .responder 0)

/-- The same with a second stream opened in between: its CONNECT takes a number of the first. -/
def twoStreams : List (LinkAct .symbolic) :=
  [.other false (utf8 "STREAM!1!x:80"), arriveNow 0, .establish 0,
    .other false (utf8 "STREAM!2!x:80"), arriveNow 0, .establish 0, .data false 1 [65], arriveNow 0]

end Link

end Vantablack.Socks
