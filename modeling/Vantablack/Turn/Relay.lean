import Vantablack.Turn.Agreement

/-!
Application data over the relay, in both directions: what a client hands to its server leaves for
the peer, and what the server forwards of a peer is read by the client as it was sent.
-/

namespace Vantablack.Turn.Link

open Lib Layers Receive Net Stun TurnClient TurnServer

variable (d : Digests) (me : Endpoint)

/-- What the client sends to a peer leaves the server for that peer, and nothing else does. -/
def Delivers (w : Link) (draw : Draw) (txid : TransactionId) (peer : SocketAddr) (payload : Bytes)
    (now : ℕ) : Prop :=
  ∃ bytes, w.client.send d txid peer payload = .ok bytes ∧
    ∃ port, (w.server.handle d draw bytes me.1 now).2 = [.toPeer port peer payload]

/-- The client has an allocation and a channel for the peer, which the server's unexpired
allocation binds too. -/
def BoundAt (w : Link) (peer : SocketAddr) (now : ℕ) : Prop :=
  w.client.allocation.isSome ∧ ∃ channel a, w.client.channelPeers.lookup peer = some channel ∧
    w.server.allocations.lookup me.1 = some a ∧ now < a.expiresAt ∧ channel ∈ a.channels

/-- What the client makes of a datagram of the server is this peer and payload. -/
def Reads (c : TurnClient) (raw : Bytes) (peer : SocketAddr) (payload : Bytes) : Prop :=
  decodeInbound raw = some (.data peer payload) ∨
    ∃ channel, decodeInbound raw = some (.channelData channel payload) ∧
      c.peerForChannel channel = some peer

def dataMessage (txid : TransactionId) (peer : SocketAddr) (payload : Bytes) : Message :=
  ((Message.new .data .indication txid).push (.xorPeerAddress peer)).push (.data payload)

/-- The frame of a peer's payload fits in its length field. -/
def FrameFits (a : ServerAllocation) (txid : TransactionId) (peer : SocketAddr) (payload : Bytes) :
    Prop :=
  match a.channelPeers.lookup peer with
  | some _ => payload.length < 2 ^ 16
  | none => (encodeAttributes txid (dataMessage txid peer payload).attributes).length < 2 ^ 16

/-! ### From the client to the peer -/

variable {w : Link} {peer : SocketAddr} {payload : Bytes}

variable (txid : TransactionId)

theorem plain_sendMessage {a : Attribute}
    (ha : a ∈ (sendMessage txid peer payload).attributes) : a.isPlain = true := by
  rcases List.mem_pair.mp ha with rfl | rfl <;> rfl

theorem readable_sendMessage (hport : peer.port < 2 ^ 16) (txid : TransactionId) {a : Attribute}
    (ha : a ∈ (sendMessage txid peer payload).attributes) : a.Readable txid := by
  rcases List.mem_pair.mp ha with rfl | rfl
  · exact fun _ => .xorPeerAddress hport
  · exact fun hlen => .data hlen

theorem handle_sendMessage (hport : peer.port < 2 ^ 16) (s : TurnServer) (draw : Draw)
    (txid : TransactionId) (key : Bytes) (src : SocketAddr) (now : ℕ)
    (hlen : ((sendMessage txid peer payload).encodeWithIntegrity d key).length < 2 ^ 16) :
    (s.handle d draw ((sendMessage txid peer payload).encodeWithIntegrity d key) src
      now).2 = [] := by
  set m := sendMessage txid peer payload
  have hm : m.Sealable := Message.sealable_of_length d
    (fun _ ha => readable_sendMessage hport txid ha) (fun _ ha => plain_sendMessage txid ha) hlen
  have hchannel : parseChannelData (m.encodeWithIntegrity d key) = none := by
    rw [Message.encodeWithIntegrity_eq]
    exact parseChannelData_writeHeader (by
      change (MessageType.new .send .indication).value < 0x4000
      decide) m.txid _ _
  have hnoUser : (m.sealed d key).get Attr.username = none := by
    rw [Message.get_sealed d hm key (by decide) (by decide)]
    rfl
  have hauth : (s.expire now).authenticate d (m.encodeWithIntegrity d key) (m.sealed d key) = none := by
    rw [authenticate, hnoUser]
  have hcls : (m.sealed d key).typ.cls = .indication := by
    change (MessageType.new .send .indication).cls = .indication
    decide
  simp only [handle, hchannel, Message.parse_encodeWithIntegrity d hm,
    dispatch, hcls, handleSend, hauth]
  split <;> rfl

theorem length_sendMessage_lt (h : payload.length ≤ 65000) (txid : TransactionId) (key : Bytes) :
    ((sendMessage txid peer payload).encodeWithIntegrity d key).length < 2 ^ 16 := by
  have haddr := length_encodeAddress_le peer txid true
  have hheader : headerLen = 20 := rfl
  rw [Message.length_encodeWithIntegrity d (fun _ ha => plain_sendMessage txid ha)]
  simp only [sendMessage, Message.push, Message.new, List.nil_append, List.cons_append,
    encodeAttributes, List.flatMap_cons, List.flatMap_nil, List.length_append, List.length_nil,
    Attribute.encodeInto, length_encodeTlv, Attribute.encodeValue, paddedLen]
  omega

theorem handle_channelData {channel : UInt16} (hchannel : IsChannel channel)
    (hlen : payload.length < 2 ^ 16) (s : TurnServer) (draw : Draw) (src : SocketAddr) (now : ℕ) :
    (s.handle d draw (channelData channel payload) src now).2 =
      (s.expire now).relayChannelData src channel payload := by
  simp only [handle, parseChannelData_channelData hchannel hlen]

theorem relayChannelData_eq {s : TurnServer} {src : SocketAddr} {channel : UInt16} {now : ℕ} :
    (∃ port dest, (s.expire now).relayChannelData src channel payload = [.toPeer port dest payload]) ↔
      ∃ a, s.allocations.lookup src = some a ∧ now < a.expiresAt ∧ channel ∈ a.channels := by
  unfold relayChannelData
  constructor
  · rintro ⟨port, dest, h⟩
    split at h
    · cases h
    · rename_i a ha
      obtain ⟨b, hb, hlive, rfl⟩ := lookup_expire.mp ha
      split at h
      · cases h
      · rename_i p hp
        have hmem : channel ∈ b.channels := AList.lookup_isSome.mp (by
          change b.channels.lookup channel = some p at hp
          rw [hp]
          rfl)
        exact ⟨b, hb, hlive, hmem⟩
  · rintro ⟨a, ha, hlive, hmem⟩
    obtain ⟨p, hp⟩ := Option.isSome_iff_exists.mp (AList.lookup_isSome.mpr hmem)
    have hexpired : (s.expire now).allocations.lookup src = some (a.prune now) :=
      lookup_expire.mpr ⟨a, ha, hlive, rfl⟩
    have hpruned : (a.prune now).channels.lookup channel = some p := hp
    refine ⟨a.relayPort, p, ?_⟩
    rw [hexpired]
    simp only [hpruned]
    rfl

theorem Agrees.delivers_iff (h : w.Agrees me) (hport : peer.port < 2 ^ 16)
    (hlen : payload.length ≤ 65000) (draw : Draw) (txid : TransactionId) (now : ℕ) :
    w.Delivers d me draw txid peer payload now ↔ w.BoundAt me peer now := by
  have hpad : paddedLen payload.length ≤ 65000 := by
    unfold paddedLen
    omega
  constructor
  · rintro ⟨bytes, hsend, port, houts⟩
    simp only [send] at hsend
    cases hrequire : w.client.requireAllocation with
    | error e =>
        rw [hrequire] at hsend
        cases hsend
    | ok u =>
        rw [hrequire] at hsend
        have halloc := allocation_of_require hrequire
        refine ⟨halloc, ?_⟩
        dsimp only at hsend
        split at hsend
        · cases hsend
        cases hsend
        simp only [sendBytes] at houts
        cases hpeer : w.client.channelPeers.lookup peer with
        | none =>
            obtain ⟨realm, hrealm⟩ := Option.isSome_iff_exists.mp (h.client.credentials halloc).1
            simp only [hpeer, TurnClient.key, hrealm,
              handle_sendMessage d hport _ _ _ _ _ _ (length_sendMessage_lt d hlen txid _)] at houts
            cases houts
        | some channel =>
            have hmem : channel ∈ w.client.channels := AList.lookup_isSome.mp (by
              rw [(h.client.paired.iff channel peer).mpr hpeer]
              rfl)
            simp only [hpeer, handle_channelData d (h.client.range channel hmem)
              (by omega : payload.length < 2 ^ 16)] at houts
            obtain ⟨a, ha, hlive, hbound⟩ := relayChannelData_eq.mp ⟨port, peer, houts⟩
            exact ⟨channel, a, rfl, ha, hlive, hbound⟩
  · rintro ⟨halloc, channel, a, hpeer, ha, hlive, hbound⟩
    have hmem : channel ∈ w.client.channels := AList.lookup_isSome.mp (by
      rw [(h.client.paired.iff channel peer).mpr hpeer]
      rfl)
    have hbytes : w.client.sendBytes d txid peer payload = channelData channel payload := by
      simp only [sendBytes, hpeer]
    have hfits : ¬ maxPayload w.client.server.ip < (channelData channel payload).length := by
      rw [channelData_eq, length_encodeTlv]
      cases w.client.server.ip <;> simp only [maxPayload] <;> omega
    refine ⟨channelData channel payload, ?_, ?_⟩
    · simp only [send, requireAllocation, if_pos halloc, hbytes,
        if_neg hfits]
    · rw [handle_channelData d (h.client.range channel hmem) (by omega)]
      obtain ⟨p, hp⟩ := Option.isSome_iff_exists.mp (AList.lookup_isSome.mpr hbound)
      have hsame : p = peer := by
        have hknown := h.known a ha channel p hp
        rw [(h.client.paired.iff channel peer).mpr hpeer] at hknown
        exact (Option.some.inj hknown).symm
      have hexpired : (w.server.expire now).allocations.lookup me.1 = some (a.prune now) :=
        lookup_expire.mpr ⟨a, ha, hlive, rfl⟩
      have hpruned : (a.prune now).channels.lookup channel = some peer := hsame ▸ hp
      refine ⟨a.relayPort, ?_⟩
      simp only [relayChannelData, hexpired, hpruned]
      rfl

/-! ### From the peer to the client -/

theorem encodable_dataMessage (hport : peer.port < 2 ^ 16) (txid : TransactionId)
    (hlen : (encodeAttributes txid (dataMessage txid peer payload).attributes).length < 2 ^ 16) :
    (dataMessage txid peer payload).Encodable := by
  constructor
  · intro a ha
    have hvalue := @length_encodeValue_le _ txid _ ha
    rcases List.mem_pair.mp ha with rfl | rfl
    · exact .xorPeerAddress hport
    · exact .data (by
        change payload.length ≤ _ at hvalue
        omega)
  · exact hlen

theorem parseChannelData_dataMessage :
    parseChannelData (dataMessage txid peer payload).encode = none :=
  parseChannelData_writeHeader (by
    change (MessageType.new .data .indication).value < 0x4000
    decide) _ _ _

theorem decodeInbound_dataMessage (hport : peer.port < 2 ^ 16) (txid : TransactionId) :
    decodeInbound (dataMessage txid peer payload).encode = some (.data peer payload) ↔
      (encodeAttributes txid (dataMessage txid peer payload).attributes).length < 2 ^ 16 := by
  rw [decodeInbound, parseChannelData_dataMessage]
  constructor
  · intro h
    dsimp only at h
    split at h
    · cases h
    rename_i msg hparse
    split at h
    · cases h
    split at h
    · rename_i p q hp hq
      cases h
      have hdata := length_data_le_declared hparse hq
      rw [Message.encode, declaredLength_writeHeader_mod] at hdata
      change 4 + payload.length ≤ (encodeAttributes txid
        (dataMessage txid peer payload).attributes).length % 2 ^ 16 at hdata
      have haddr := length_encodeAddress_le peer txid true
      have hlength : (encodeAttributes txid (dataMessage txid peer payload).attributes).length =
          4 + paddedLen (encodeAddress peer txid true).length + (4 + paddedLen payload.length) := by
        simp only [dataMessage, Message.push, Message.new, List.nil_append, List.cons_append,
          encodeAttributes, List.flatMap_cons, List.flatMap_nil, List.length_append,
          List.length_nil, Attribute.encodeInto, length_encodeTlv, Attribute.encodeValue]
        rfl
      rw [hlength] at hdata ⊢
      unfold paddedLen at hdata ⊢
      omega
    · cases h
  · intro hlen
    have hparse := parse_encode (encodable_dataMessage hport txid hlen) []
    rw [List.append_nil] at hparse
    have htyp : ¬ ((dataMessage txid peer payload).typ.method ≠ .data ∨
        (dataMessage txid peer payload).typ.cls ≠ .indication) := by
      change ¬ ((MessageType.new .data .indication).method ≠ .data ∨
        (MessageType.new .data .indication).cls ≠ .indication)
      decide
    simp only [hparse]
    rw [if_neg htyp]
    rfl

theorem decodeInbound_dataMessage_ne (channel : UInt16) (q : Bytes) :
    decodeInbound (dataMessage txid peer payload).encode ≠
      some (.channelData channel q) := by
  rw [decodeInbound, parseChannelData_dataMessage]
  dsimp only
  split
  · nofun
  split
  · nofun
  split
  · nofun
  · nofun

theorem Agrees.reads_iff (h : w.Agrees me) {a : ServerAllocation}
    (ha : w.server.allocations.lookup me.1 = some a) (hport : peer.port < 2 ^ 16)
    (txid : TransactionId) :
    Reads w.client (frameFor a txid peer payload) peer payload ↔
      FrameFits a txid peer payload := by
  unfold Reads frameFor FrameFits
  cases hlookup : a.channelPeers.lookup peer with
  | none =>
      change (decodeInbound (dataMessage txid peer payload).encode = _ ∨
        ∃ channel, decodeInbound (dataMessage txid peer payload).encode = _ ∧ _) ↔
          (encodeAttributes txid (dataMessage txid peer payload).attributes).length < 2 ^ 16
      rw [← decodeInbound_dataMessage hport txid]
      refine ⟨?_, .inl⟩
      rintro (hdata | ⟨channel, hchannel, -⟩)
      · exact hdata
      · exact absurd hchannel (decodeInbound_dataMessage_ne txid channel payload)
  | some channel =>
      have hbound := h.known a ha channel peer (((h.paired a ha).iff channel peer).mpr hlookup)
      have hrange := h.client.range channel (AList.lookup_isSome.mp (by rw [hbound]; rfl))
      simp only [decodeInbound, parseChannelData_channelData_mod hrange]
      constructor
      · rintro (hdata | ⟨c, hc, -⟩)
        · cases hdata
        · have hpayload : payload.take (payload.length % 2 ^ 16) = payload :=
            (TurnInbound.channelData.inj (Option.some.inj hc)).2
          have hlength := congrArg List.length hpayload
          rw [List.length_take] at hlength
          have hmod := Nat.mod_lt payload.length (by decide : 0 < 2 ^ 16)
          omega
      · intro hlen
        right
        rw [Nat.mod_eq_of_lt hlen, List.take_length]
        exact ⟨channel, rfl, hbound⟩

/-- In every run of a client of the server: what the client sends to a peer leaves for that peer
exactly if both sides have bound a channel for it, and what the server forwards of a peer is read
by the client as it was sent exactly if the frame fits in its length field. -/
theorem relayed_iff {w : Link} (hw : w.Start me) (as : List Act) :
    let t := as.foldl (Link.step d me) w
    (∀ draw txid (peer : Endpoint) payload now, payload.length ≤ 65000 →
      (t.Delivers d me draw txid peer.1 payload now ↔ t.BoundAt me peer.1 now)) ∧
    (∀ txid port (peer : Endpoint) payload data,
      t.server.handlePeerData txid port peer.1 payload = some (.toClient me.1 data) →
        ∃ a, t.server.allocations.lookup me.1 = some a ∧
          (Reads t.client data peer.1 payload ↔ FrameFits a txid peer.1 payload)) := by
  intro t
  have ht : t.Agrees me := hw.run d me as
  refine ⟨fun draw txid peer payload now hlen => ht.delivers_iff d me peer.2 hlen draw txid now, ?_⟩
  intro txid port peer payload data hdata
  unfold handlePeerData at hdata
  split at hdata
  · cases hdata
  rename_i client a howner
  split at hdata
  · cases hdata
  cases hdata
  obtain ⟨ha, -⟩ := lookup_of_ownerOf howner
  exact ⟨a, ha, ht.reads_iff me ha peer.2 txid⟩

def permitActs : List Act :=
  [.allocate (alone 1) (TurnServer.txid 1) (TurnServer.txid 2) 600 0,
    .createPermission (alone 2) (TurnServer.txid 3) peerHome 0]

/-- Allocation and permission are there on both sides, and the Send indication is dropped. -/
theorem permitted_send_is_dropped :
    let t := permitActs.foldl (Link.step .front homeAddr) home
    t.client.allocation.isSome ∧ t.client.permissions.lookup peerHome.1.ip = some 300 ∧
      ((t.server.allocations.lookup homeAddr.1).map (·.permissions.lookup peerHome.1.ip)) =
        some (some 300) ∧
      ¬ t.Delivers .front homeAddr (TurnServer.draw 2) (TurnServer.txid 4) peerHome.1 [1, 2, 3] 1 := by
  intro t
  refine ⟨by decide +kernel, by decide +kernel, by decide +kernel, ?_⟩
  have hnone : (t.client.send .front (TurnServer.txid 4) peerHome.1 [1, 2, 3]).toOption.map
      (fun bytes => (t.server.handle .front (TurnServer.draw 2) bytes homeAddr.1 1).2) =
        some [] := by
    decide +kernel
  rintro ⟨bytes, hsend, port, houts⟩
  rw [hsend, Except.toOption, Option.map_some, houts] at hnone
  cases hnone

/-- A run in which the client binds a channel too. -/
theorem relayed_home :
    let t := (permitActs ++ [Act.channelBind (alone 2) (TurnServer.txid 5) peerHome 0]).foldl
      (Link.step .front homeAddr) home
    (∀ draw txid (peer : Endpoint) payload now, payload.length ≤ 65000 →
      (t.Delivers .front homeAddr draw txid peer.1 payload now ↔ t.BoundAt homeAddr peer.1 now)) ∧
    (∀ txid port (peer : Endpoint) payload data,
      t.server.handlePeerData txid port peer.1 payload = some (.toClient homeAddr.1 data) →
        ∃ a, t.server.allocations.lookup homeAddr.1 = some a ∧
          (Reads t.client data peer.1 payload ↔ FrameFits a txid peer.1 payload)) :=
  relayed_iff .front homeAddr start_home _

end Vantablack.Turn.Link
