import Vantablack.Turn.Exchange
import Vantablack.Turn.Permissions

/-!
A client and its server over a link that is lossless and in order. Other parties are at the server
at any time, also while a request of the client is under way: they do whatever the server does not
take for an authenticated request of this client.
-/

namespace Vantablack.Turn

open Lib Layers Receive Net Stun

/-- An address that a socket can have. -/
abbrev Endpoint := { addr : SocketAddr // addr.port < 2 ^ 16 }

structure Link where
  client : TurnClient
  server : TurnServer

/-- What surrounds the handling of a datagram: the draws of the call, and what other parties did
before it. -/
structure Surroundings where
  draw : Bytes → Draw
  before : Bytes → List TurnServer.Event

namespace Link

variable (d : Digests) (me : Endpoint)

/-- Something that other parties do. -/
def Foreign (s : TurnServer) : TurnServer.Event → Prop
  | .handle _ raw src _ => src = me.1 → s.asked d raw = none
  | .peerData .. => True
  | .sweep _ => True

instance (s : TurnServer) : DecidablePred (Foreign d me s) := fun e =>
  match e with
  | .handle _ _ _ _ => inferInstanceAs (Decidable (_ → _))
  | .peerData .. => isTrue trivial
  | .sweep _ => isTrue trivial

def other (s : TurnServer) (e : TurnServer.Event) : TurnServer :=
  if Foreign d me s e then s.step d e else s

def others (s : TurnServer) (es : List TurnServer.Event) : TurnServer := es.foldl (other d me) s

/-- What reaches the client's socket. -/
def received : Outbound → Option Bytes
  | .toClient dest data =>
      if dest = me.1 ∧ data.length ≤ maxPayload me.1.ip then some data else none
  | .toPeer .. => none

/-- The client's datagram at the server, after what other parties did, and the way back. -/
def wire (env : Surroundings) (now : ℕ) : Exchange TurnServer := fun s raw =>
  let (s, outs) := (others d me s (env.before raw)).handle d (env.draw raw) raw me.1 now
  (s, outs.filterMap (received me))

inductive Act where
  | allocate (env : Surroundings) (txid txid' : TransactionId) (lifetime now : ℕ)
  | refresh (env : Surroundings) (txid : TransactionId) (lifetime now : ℕ)
  | createPermission (env : Surroundings) (txid : TransactionId) (peer : Endpoint) (now : ℕ)
  | channelBind (env : Surroundings) (txid : TransactionId) (peer : Endpoint) (now : ℕ)
  | other (e : TurnServer.Event)

def step (w : Link) : Act → Link
  | .allocate env txid txid' lifetime now =>
      let (c, s, _) := w.client.allocate d (wire d me env now) w.server txid txid' lifetime now
      ⟨c, s⟩
  | .refresh env txid lifetime now =>
      let (c, s, _) := w.client.refresh d (wire d me env now) w.server txid lifetime now
      ⟨c, s⟩
  | .createPermission env txid peer now =>
      let (c, s, _) := w.client.createPermission d (wire d me env now) w.server txid peer.1 now
      ⟨c, s⟩
  | .channelBind env txid peer now =>
      let (c, s, _) := w.client.channelBind d (wire d me env now) w.server txid peer.1 now
      ⟨c, s⟩
  | .other e => ⟨w.client, Link.other d me w.server e⟩

/-! ### What other parties do -/

@[simp] theorem config_other (s : TurnServer) (e : TurnServer.Event) :
    (other d me s e).config = s.config := by
  unfold other
  split
  · cases e with
    | handle draw raw src now => exact TurnServer.config_handle ..
    | peerData txid relayPort peer payload now => rfl
    | sweep now => rfl
  · rfl

@[simp] theorem config_others (s : TurnServer) (es : List TurnServer.Event) :
    (others d me s es).config = s.config :=
  foldl_invariant (fun t => t.config = s.config) (fun t e ht => (config_other d me t e).trans ht) rfl es

theorem lookup_other {s : TurnServer} {e : TurnServer.Event} {a : ServerAllocation}
    (h : (other d me s e).allocations.lookup me.1 = some a) :
    ∃ b, s.allocations.lookup me.1 = some b ∧ a.channels = b.channels ∧
      a.channelPeers = b.channelPeers := by
  have hexpire : ∀ now, (s.expire now).allocations.lookup me.1 = some a →
      ∃ b, s.allocations.lookup me.1 = some b ∧ a.channels = b.channels ∧
        a.channelPeers = b.channelPeers := by
    intro now ha
    obtain ⟨b, hb, -, rfl⟩ := TurnServer.lookup_expire.mp ha
    exact ⟨b, hb, rfl, rfl⟩
  unfold other at h
  split at h
  · rename_i hforeign
    cases e with
    | handle draw raw src now =>
        rw [TurnServer.step, TurnServer.allocations_handle] at h
        cases hgrant : ((s.expire now).asked d raw).bind ((s.expire now).grant src now) with
        | none =>
            rw [hgrant, Option.getD_none] at h
            exact hexpire now h
        | some t =>
            obtain ⟨op, hasked, hop⟩ := Option.bind_eq_some_iff.mp hgrant
            have hne : me.1 ≠ src := by
              intro heq
              have hnone : s.asked d raw = none := hforeign heq.symm
              have hsome : s.asked d raw = some op := hasked
              rw [hnone] at hsome
              cases hsome
            rw [hgrant, Option.getD_some, TurnServer.lookup_grant_of_ne hop hne] at h
            exact hexpire now h
    | peerData txid relayPort peer payload now => exact ⟨a, h, rfl, rfl⟩
    | sweep now => exact hexpire now h
  · exact ⟨a, h, rfl, rfl⟩

theorem lookup_others {s : TurnServer} {es : List TurnServer.Event} {a : ServerAllocation}
    (h : (others d me s es).allocations.lookup me.1 = some a) :
    ∃ b, s.allocations.lookup me.1 = some b ∧ a.channels = b.channels ∧
      a.channelPeers = b.channelPeers := by
  induction es generalizing s with
  | nil => exact ⟨a, h, rfl, rfl⟩
  | cons e es ih =>
      obtain ⟨b, hb, hchannels, hpeers⟩ := ih h
      obtain ⟨b', hb', hchannels', hpeers'⟩ := lookup_other d me hb
      exact ⟨b', hb', hchannels.trans hchannels', hpeers.trans hpeers'⟩

/-! ### One request over the link -/

/-- The server as the client's datagram finds it. -/
def arrival (env : Surroundings) (now : ℕ) (s : TurnServer) (raw : Bytes) : TurnServer :=
  (others d me s (env.before raw)).expire now

theorem config_arrival (env : Surroundings) (now : ℕ) (s : TurnServer) (raw : Bytes) :
    (arrival d me env now s raw).config = s.config := config_others d me s _

theorem realm_of_config {s t : TurnServer} (h : s.config = t.config) : s.realm = t.realm :=
  congrArg ServerConfig.realm h

theorem users_of_config {s t : TurnServer} (h : s.config = t.config) : s.users = t.users :=
  congrArg ServerConfig.users h

theorem le_maxPayload (ip : IpAddr) : 1500 ≤ maxPayload ip := by
  cases ip <;> simp [maxPayload]

theorem maxPayload_lt (ip : IpAddr) : maxPayload ip < 2 ^ 16 := by
  cases ip <;> simp [maxPayload]

theorem wire_sealed {m : Message} (hm : m.Sealable) (hvalue : m.typ.value < 0x4000) (key : Bytes)
    (env : Surroundings) (now : ℕ) (s : TurnServer) :
    wire d me env now s (m.encodeWithIntegrity d key) =
      let raw := m.encodeWithIntegrity d key
      let r := (arrival d me env now s raw).dispatch d (env.draw raw) raw (m.sealed d key) me.1 now
      (r.1, r.2.filterMap (received me)) := by
  have hchannel : parseChannelData (m.encodeWithIntegrity d key) = none := by
    rw [Message.encodeWithIntegrity_eq]
    exact parseChannelData_writeHeader hvalue m.txid _ _
  simp only [wire, TurnServer.handle, hchannel, Message.parse_encodeWithIntegrity d hm, arrival]

section Answers

variable {d me} {c : TurnClient} {key : Octets 16} {request : Message}

theorem awaitResponse_success (hkey : c.key d = .ok key) {resp : Message}
    (hresp : Reply request resp) :
    c.awaitResponse d request.txid
        ((TurnServer.success d me.1 key resp).filterMap (received me)) =
      .ok (resp.sealed d key.toList) := by
  have hlen := Message.length_encodeWithIntegrity d hresp.sealable.plain key.toList
  have hsmall := hresp.length_le
  have hmax := le_maxPayload me.1.ip
  have hheader : headerLen = 20 := rfl
  have hreceived : (TurnServer.success d me.1 key resp).filterMap (received me) =
      [resp.encodeWithIntegrity d key.toList] := by
    have hfits : (resp.encodeWithIntegrity d key.toList).length ≤ maxPayload me.1.ip := by omega
    simp [TurnServer.success, received, hfits]
  have htake : (resp.encodeWithIntegrity d key.toList).take recvBuffer =
      resp.encodeWithIntegrity d key.toList :=
    List.take_of_length_le (by rw [recvBuffer]; omega)
  have htxid : (resp.sealed d key.toList).txid = request.txid := hresp.txid
  rw [hreceived, TurnClient.awaitResponse, htake, Message.parse_encodeWithIntegrity d hresp.sealable]
  simp only [htxid, hkey, ne_eq, not_true_eq_false, if_false,
    Message.verifyIntegrity_encodeWithIntegrity d hresp.sealable, and_false]

theorem awaitResponse_refusal {s : TurnServer} {code : UInt16} {refusal : Message}
    (h : Refusal s request code refusal) :
    c.awaitResponse d request.txid ([.toClient me.1 refusal.encode].filterMap (received me)) =
        .error .timeout ∨
      c.awaitResponse d request.txid ([.toClient me.1 refusal.encode].filterMap (received me)) =
        .ok refusal := by
  by_cases hfits : refusal.encode.length ≤ maxPayload me.1.ip
  · have hlt := hfits.trans_lt (maxPayload_lt me.1.ip)
    have hreceived : [Outbound.toClient me.1 refusal.encode].filterMap (received me) =
        [refusal.encode] := by
      simp [received, hfits]
    rw [hreceived, TurnClient.awaitResponse]
    cases hparse : parse (refusal.encode.take recvBuffer) with
    | error e => exact .inl rfl
    | ok msg =>
        have hle := length_le_of_parse_take hlt (by decide) hparse
        rw [List.take_of_length_le hle] at hparse ⊢
        have hencodable := Message.encodable_of_length h.readable hlt
        have hwhole := parse_encode hencodable []
        rw [List.append_nil, hparse] at hwhole
        cases hwhole
        right
        simp only [h.txid, ne_eq, not_true_eq_false, if_false, h.unsealed, Option.isSome_none,
          Bool.false_eq_true, false_and]
        split <;> rfl
  · left
    have hreceived : [Outbound.toClient me.1 refusal.encode].filterMap (received me) = [] := by
      simp [received, hfits]
    rw [hreceived]
    rfl

theorem cls_refusal {s : TurnServer} {code : UInt16} {refusal : Message}
    (h : Refusal s request code refusal)
    (hmethod : request.typ.method ∈
      [Method.allocate, .refresh, .createPermission, .channelBind]) :
    refusal.typ.cls = .errorResponse := by
  rw [h.typ]
  simp only [List.mem_cons, List.not_mem_nil, or_false] at hmethod
  rcases hmethod with h | h | h | h <;> rw [h] <;> decide

theorem cls_reply {resp : Message} (h : Reply request resp)
    (hmethod : request.typ.method ∈
      [Method.allocate, .refresh, .createPermission, .channelBind]) :
    resp.typ.cls = .successResponse := by
  rw [h.typ]
  simp only [List.mem_cons, List.not_mem_nil, or_false] at hmethod
  rcases hmethod with h | h | h | h <;> rw [h] <;> decide

end Answers

def sealedRequest (c : TurnClient) (realm nonce : String) (m : Message) : Bytes :=
  (c.withCredentials realm nonce m).encodeWithIntegrity d
    (longTermKey d c.username realm c.password).toList

/-- What the server grants of a request, if it knows the nonce. -/
def granted (s : TurnServer) (realm nonce : String) (m : Message) (now : ℕ) :
    Option (Table SocketAddr ServerAllocation) :=
  (if realm = s.realm ∧ nonce ∈ s.nonces then Op.ofMessage m else none).bind (s.grant me.1 now)

section Ask

variable {d me} {c : TurnClient} {m : Message} {realm nonce : String}

theorem ofMessage_sealed (h : (c.withCredentials realm nonce m).Sealable) (key : Bytes) :
    Op.ofMessage ((c.withCredentials realm nonce m).sealed d key) = Op.ofMessage m := by
  have hget : ∀ kind : UInt16, kind ≠ Attr.messageIntegrity → kind ≠ Attr.fingerprint →
      kind ≠ Attr.username → kind ≠ Attr.realm → kind ≠ Attr.nonce →
        ((c.withCredentials realm nonce m).sealed d key).get kind = m.get kind := by
    intro kind hmi hfp hu hr hn
    rw [Message.get_sealed d h key hmi hfp, get_withCredentials c realm nonce m hu hr hn]
  apply Op.ofMessage_congr
  · rfl
  · rw [Message.requestedTransport, Message.requestedTransport,
      hget Attr.requestedTransport (by decide) (by decide) (by decide) (by decide) (by decide)]
  · rw [Message.lifetime, Message.lifetime,
      hget Attr.lifetime (by decide) (by decide) (by decide) (by decide) (by decide)]
  · rw [Message.xorPeerAddress, Message.xorPeerAddress,
      hget Attr.xorPeerAddress (by decide) (by decide) (by decide) (by decide) (by decide)]
  · rw [Message.channelNumber, Message.channelNumber,
      hget Attr.channelNumber (by decide) (by decide) (by decide) (by decide) (by decide)]

theorem lifetime_sealed (h : (c.withCredentials realm nonce m).Sealable) (key : Bytes) :
    ((c.withCredentials realm nonce m).sealed d key).lifetime = m.lifetime := by
  rw [Message.lifetime, Message.lifetime, Message.get_sealed d h key (by decide) (by decide),
    get_withCredentials c realm nonce m (by decide) (by decide) (by decide)]

theorem transact_eq (hm : Requestable m)
    (hfits : (sealedRequest d c realm nonce m).length ≤ maxPayload c.server.ip)
    (env : Surroundings) (now : ℕ) (s : TurnServer) :
    c.transact d (wire d me env now) s (sealedRequest d c realm nonce m) m.txid =
      let raw := sealedRequest d c realm nonce m
      let request := (c.withCredentials realm nonce m).sealed d
        (longTermKey d c.username realm c.password).toList
      let r := (arrival d me env now s raw).dispatch d (env.draw raw) raw request me.1 now
      (r.1, c.awaitResponse d m.txid (r.2.filterMap (received me))) := by
  have hsealable := hm.sealable d c realm nonce (hfits.trans_lt (maxPayload_lt _))
  rw [TurnClient.transact, if_neg (Nat.not_lt.mpr hfits), sealedRequest,
    wire_sealed d me hsealable hm.value_lt]

theorem ask_eq (hm : Requestable m) (hrealm : c.realm = some realm) (hnonce : c.nonce = some nonce)
    (hfits : (sealedRequest d c realm nonce m).length ≤ maxPayload c.server.ip)
    (env : Surroundings) (now : ℕ) (s : TurnServer) :
    c.ask d (wire d me env now) s m =
      let raw := sealedRequest d c realm nonce m
      let request := (c.withCredentials realm nonce m).sealed d
        (longTermKey d c.username realm c.password).toList
      let r := (arrival d me env now s raw).dispatch d (env.draw raw) raw request me.1 now
      match c.awaitResponse d m.txid (r.2.filterMap (received me)) with
      | .error e => (r.1, .error e)
      | .ok response =>
          if response.typ.cls = .errorResponse then (r.1, .error (TurnClient.rejection response))
          else (r.1, .ok response) := by
  have htransact := @transact_eq d me c m realm nonce hm hfits env now s
  rw [sealedRequest] at htransact
  simp only [TurnClient.ask, TurnClient.seal_, hrealm, hnonce, htransact]
  simp only [sealedRequest]
  generalize c.awaitResponse d m.txid _ = result
  cases result <;> rfl

theorem ask_long (hrealm : c.realm = some realm) (hnonce : c.nonce = some nonce)
    (hlong : maxPayload c.server.ip < (sealedRequest d c realm nonce m).length)
    {σ : Type} (net : Exchange σ) (s : σ) : c.ask d net s m = (s, .error .io) := by
  rw [sealedRequest] at hlong
  simp only [TurnClient.ask, TurnClient.seal_, hrealm, hnonce, TurnClient.transact]
  rw [if_pos hlong]

variable (hm : Requestable m)
  (hmethod : m.typ.method ∈ [Method.allocate, .refresh, .createPermission, .channelBind])
  (hrealm : c.realm = some realm) (hnonce : c.nonce = some nonce)
  (hfits : (sealedRequest d c realm nonce m).length ≤ maxPayload c.server.ip)
  {s : TurnServer} (huser : s.users.lookup c.username = some c.password)

variable (env : Surroundings)

include hm hmethod hfits huser in
theorem answered_arrival (now : ℕ) :
    let raw := sealedRequest d c realm nonce m
    let a := arrival d me env now s raw
    let request := (c.withCredentials realm nonce m).sealed d
      (longTermKey d c.username realm c.password).toList
    let r := a.dispatch d (env.draw raw) raw request me.1 now
    r.1.config = s.config ∧
      r.1.allocations = (granted me a realm nonce m now).getD a.allocations ∧
      ((∃ resp, Reply request resp ∧ (granted me a realm nonce m now).isSome ∧
          r.2 = TurnServer.success d me.1 (longTermKey d c.username realm c.password) resp) ∨
        (granted me a realm nonce m now = none ∧
          ∃ code refusal, Refusal a request code refusal ∧
            r.2 = [.toClient me.1 refusal.encode])) := by
  intro raw a request r
  have hsealable := hm.sealable d c realm nonce (hfits.trans_lt (maxPayload_lt _))
  have hconfig : a.config = s.config := config_arrival d me env now s raw
  have hauth : a.authenticate d raw request =
      if realm = a.realm ∧ nonce ∈ a.nonces then
        some (longTermKey d c.username realm c.password) else none :=
    hm.authenticate d c realm nonce (by rwa [users_of_config hconfig]) hsealable
  have hasked : (if (a.authenticate d raw request).isSome then Op.ofMessage request else none) =
      if realm = a.realm ∧ nonce ∈ a.nonces then Op.ofMessage m else none := by
    rw [hauth, ofMessage_sealed hsealable]
    split <;> rfl
  have hallocs := TurnServer.allocations_dispatch d a (env.draw raw) raw request me.1 now
  rw [hasked] at hallocs
  refine ⟨(TurnServer.config_dispatch ..).trans hconfig, hallocs, ?_⟩
  have hanswered := @answered_dispatch d a (env.draw raw) raw request me.1 now me.2 hm.cls hmethod
  rw [Answered] at hanswered
  simp only [hasked] at hanswered
  rcases hanswered with ⟨key, resp, hkey, hreply, hsome, houts⟩ | hrefused
  · rw [hauth] at hkey
    split at hkey
    · cases hkey
      exact .inl ⟨resp, hreply, hsome, houts⟩
    · cases hkey
  · exact .inr hrefused

include hm hmethod hrealm hnonce hfits huser in
theorem ask_granted (now : ℕ) {t : Table SocketAddr ServerAllocation}
    (hgrant : granted me (arrival d me env now s (sealedRequest d c realm nonce m)) realm nonce m
      now = some t) :
    ∃ s' resp, c.ask d (wire d me env now) s m = (s', .ok resp) ∧ s'.config = s.config ∧
      s'.allocations = t ∧ (m.typ.method = .refresh → resp.lifetime = some
        (if m.lifetime.getD 600 = 0 then 0 else max (m.lifetime.getD 600) minLifetimeSecs)) := by
  obtain ⟨hconfig, hallocs, hanswer⟩ := answered_arrival hm hmethod hfits huser env now
  have hsealable := hm.sealable d c realm nonce (hfits.trans_lt (maxPayload_lt _))
  have hkey : c.key d = .ok (longTermKey d c.username realm c.password) := by
    simp only [TurnClient.key, hrealm]
  rw [ask_eq hm hrealm hnonce hfits]
  rcases hanswer with ⟨resp, hreply, -, houts⟩ | ⟨hnone, -⟩
  · have hawait := @awaitResponse_success d me c _ _ hkey resp hreply
    have hresp : resp.typ.cls = .successResponse := cls_reply hreply hmethod
    have hcls : (resp.sealed d (longTermKey d c.username realm c.password).toList).typ.cls =
        .successResponse := hresp
    rw [← houts] at hawait
    have htxid : ((c.withCredentials realm nonce m).sealed d
      (longTermKey d c.username realm c.password).toList).txid = m.txid := rfl
    rw [htxid] at hawait
    simp only [hawait, hcls, reduceCtorEq, if_false]
    refine ⟨_, _, rfl, hconfig, by rw [hallocs, hgrant, Option.getD_some], fun hrefresh => ?_⟩
    have hlifetime := hreply.lifetime hrefresh
    rw [lifetime_sealed hsealable] at hlifetime
    rw [← hlifetime, Message.lifetime, Message.lifetime,
      Message.get_sealed d hreply.sealable _ (by decide) (by decide)]
  · rw [hgrant] at hnone
    cases hnone

include hm hmethod hrealm hnonce hfits huser in
theorem ask_refused (now : ℕ)
    (hgrant : granted me (arrival d me env now s (sealedRequest d c realm nonce m)) realm nonce m
      now = none) :
    ∃ s' e, c.ask d (wire d me env now) s m = (s', .error e) ∧ s'.config = s.config ∧
      s'.allocations =
        (arrival d me env now s (sealedRequest d c realm nonce m)).allocations := by
  obtain ⟨hconfig, hallocs, hanswer⟩ := answered_arrival hm hmethod hfits huser env now
  rw [ask_eq hm hrealm hnonce hfits]
  rcases hanswer with ⟨resp, -, hsome, -⟩ | ⟨-, code, refusal, hrefusal, houts⟩
  · rw [hgrant] at hsome
    cases hsome
  · rw [hgrant, Option.getD_none] at hallocs
    have hcls := cls_refusal hrefusal hmethod
    have htxid : ((c.withCredentials realm nonce m).sealed d
      (longTermKey d c.username realm c.password).toList).txid = m.txid := rfl
    rcases @awaitResponse_refusal d me c _ _ _ _ hrefusal with hawait | hawait
    · rw [← houts, htxid] at hawait
      simp only [hawait]
      exact ⟨_, _, rfl, hconfig, hallocs⟩
    · rw [← houts, htxid] at hawait
      simp only [hawait, hcls, if_true]
      exact ⟨_, _, rfl, hconfig, hallocs⟩

end Ask

end Link

end Vantablack.Turn
