import Vantablack.Turn.Client
import Vantablack.Turn.Server

/-!
One request of a client at the server: it authenticates if the client's nonce is known, it is
answered with a success exactly if it is granted, and the client takes the answer for what it is.
-/

namespace Vantablack.Turn

open Lib Layers Receive Net Stun List

/-! ### The requests of a client -/

/-- A request before its credentials are added. -/
structure Requestable (m : Message) : Prop where
  cls : m.typ.cls = .request
  value_lt : m.typ.value < 0x4000
  readable : ∀ a ∈ m.attributes, a.Readable m.txid
  plain : ∀ a ∈ m.attributes, a.isPlain = true
  username : m.get Attr.username = none
  realm : m.get Attr.realm = none
  nonce : m.get Attr.nonce = none

variable (txid : TransactionId)

theorem requestable_allocate (secs : UInt32) :
    Requestable (TurnClient.allocateMessage txid secs) where
  cls := by
    change (MessageType.new .allocate .request).cls = .request
    decide
  value_lt := by
    change (MessageType.new .allocate .request).value < 0x4000
    decide
  readable a ha := by
    simp only [TurnClient.allocateMessage, Message.new, Message.push, nil_append,
      cons_append, mem_cons, not_mem_nil, or_false] at ha
    rcases ha with rfl | rfl | rfl
    · exact fun _ => .requestedTransport _
    · exact fun _ => .lifetime _
    · exact fun _ => .dontFragment
  plain a ha := by
    simp only [TurnClient.allocateMessage, Message.new, Message.push, nil_append,
      cons_append, mem_cons, not_mem_nil, or_false] at ha
    rcases ha with rfl | rfl | rfl <;> rfl
  username := rfl
  realm := rfl
  nonce := rfl

theorem requestable_refresh (lifetime : ℕ) :
    Requestable (TurnClient.refreshMessage txid lifetime) where
  cls := by
    change (MessageType.new .refresh .request).cls = .request
    decide
  value_lt := by
    change (MessageType.new .refresh .request).value < 0x4000
    decide
  readable a ha := by
    rw [mem_singleton.mp ha]
    exact fun _ => .lifetime _
  plain a ha := by
    rw [mem_singleton.mp ha]
    rfl
  username := rfl
  realm := rfl
  nonce := rfl

theorem requestable_permission {peer : SocketAddr} (hport : peer.port < 2 ^ 16) :
    Requestable (TurnClient.permissionMessage txid peer) where
  cls := by
    change (MessageType.new .createPermission .request).cls = .request
    decide
  value_lt := by
    change (MessageType.new .createPermission .request).value < 0x4000
    decide
  readable a ha := by
    rw [mem_singleton.mp ha]
    exact fun _ => .xorPeerAddress hport
  plain a ha := by
    rw [mem_singleton.mp ha]
    rfl
  username := rfl
  realm := rfl
  nonce := rfl

theorem requestable_bind (channel : UInt16) {peer : SocketAddr} (hport : peer.port < 2 ^ 16) :
    Requestable (TurnClient.bindMessage txid channel peer) where
  cls := by
    change (MessageType.new .channelBind .request).cls = .request
    decide
  value_lt := by
    change (MessageType.new .channelBind .request).value < 0x4000
    decide
  readable a ha := by
    rcases mem_pair.mp ha with rfl | rfl
    · exact fun _ => .channelNumber _
    · exact fun _ => .xorPeerAddress hport
  plain a ha := by
    rcases mem_pair.mp ha with rfl | rfl <;> rfl
  username := rfl
  realm := rfl
  nonce := rfl

section Credentials

variable {m : Message} (h : Requestable m) (d : Digests) (c : TurnClient) (realm nonce : String)

theorem attributes_withCredentials (m : Message) :
    (c.withCredentials realm nonce m).attributes =
      m.attributes ++ [.username (utf8 c.username), .realm realm, .nonce nonce] := by
  simp [TurnClient.withCredentials, Message.push]

include h in
theorem Requestable.readable_withCredentials {a : Attribute}
    (ha : a ∈ (c.withCredentials realm nonce m).attributes) : a.Readable m.txid := by
  rw [attributes_withCredentials, mem_append] at ha
  rcases ha with ha | ha
  · exact h.readable a ha
  · simp only [mem_cons, not_mem_nil, or_false] at ha
    rcases ha with rfl | rfl | rfl
    · exact fun hlen => .username hlen
    · exact fun hlen => .realm hlen
    · exact fun hlen => .nonce hlen

include h in
theorem Requestable.plain_withCredentials {a : Attribute}
    (ha : a ∈ (c.withCredentials realm nonce m).attributes) : a.isPlain = true := by
  rw [attributes_withCredentials, mem_append] at ha
  rcases ha with ha | ha
  · exact h.plain a ha
  · simp only [mem_cons, not_mem_nil, or_false] at ha
    rcases ha with rfl | rfl | rfl <;> rfl

include h in
theorem Requestable.sealable {key : Bytes}
    (hlen : ((c.withCredentials realm nonce m).encodeWithIntegrity d key).length < 2 ^ 16) :
    (c.withCredentials realm nonce m).Sealable :=
  Message.sealable_of_length d (fun _ ha => h.readable_withCredentials c realm nonce ha)
    (fun _ ha => h.plain_withCredentials c realm nonce ha) hlen

theorem get_withCredentials (m : Message) {kind : UInt16} (husername : kind ≠ Attr.username)
    (hrealm : kind ≠ Attr.realm) (hnonce : kind ≠ Attr.nonce) :
    (c.withCredentials realm nonce m).get kind = m.get kind := by
  simp [TurnClient.withCredentials, Attribute.kind, husername.symm, hrealm.symm, hnonce.symm]

include h in
theorem Requestable.get_username :
    (c.withCredentials realm nonce m).get Attr.username = some (.username (utf8 c.username)) := by
  simp [TurnClient.withCredentials, h.username, Attribute.kind]

include h in
theorem Requestable.get_realm :
    (c.withCredentials realm nonce m).get Attr.realm = some (.realm realm) := by
  simp [TurnClient.withCredentials, h.realm, Attribute.kind,
    show Attr.username ≠ Attr.realm by decide]

include h in
theorem Requestable.get_nonce :
    (c.withCredentials realm nonce m).get Attr.nonce = some (.nonce nonce) := by
  simp [TurnClient.withCredentials, h.nonce, Attribute.kind,
    show Attr.username ≠ Attr.nonce by decide, show Attr.realm ≠ Attr.nonce by decide]

include h in
/-- A request of a user of the server is authenticated exactly if its realm is the server's and
its nonce is known. -/
theorem Requestable.authenticate {s : TurnServer}
    (huser : s.users.lookup c.username = some c.password)
    (hseal : (c.withCredentials realm nonce m).Sealable) :
    s.authenticate d
      ((c.withCredentials realm nonce m).encodeWithIntegrity d
        (longTermKey d c.username realm c.password).toList)
      ((c.withCredentials realm nonce m).sealed d
        (longTermKey d c.username realm c.password).toList) =
      if realm = s.realm ∧ nonce ∈ s.nonces then some (longTermKey d c.username realm c.password)
      else none := by
  simp only [TurnServer.authenticate, Message.realm, Message.nonce,
    Message.get_sealed d hseal _ (show Attr.username ≠ Attr.messageIntegrity by decide) (by decide),
    Message.get_sealed d hseal _ (show Attr.realm ≠ Attr.messageIntegrity by decide) (by decide),
    Message.get_sealed d hseal _ (show Attr.nonce ≠ Attr.messageIntegrity by decide) (by decide),
    h.get_username, h.get_realm, h.get_nonce]
  by_cases hknown : realm = s.realm ∧ nonce ∈ s.nonces
  · rw [if_pos hknown, if_pos hknown, fromUtf8Lossy_utf8, huser]
    simp only [Message.verifyIntegrity_encodeWithIntegrity d hseal]
  · rw [if_neg hknown, if_neg hknown]

end Credentials

/-! ### The answers of the server -/

/-- An error as the answer to a request. Only the server's own realm is ever handed out. -/
structure Refusal (s : TurnServer) (request : Message) (code : UInt16) (msg : Message) : Prop where
  typ : msg.typ = .new request.typ.method .errorResponse
  txid : msg.txid = request.txid
  readable : ∀ a ∈ msg.attributes, a.Readable msg.txid
  unsealed : msg.get Attr.messageIntegrity = none
  realm : ∀ r, msg.realm = some r → r = s.realm

/-- A success as the answer to a request: it is small, and a refresh is told the lifetime. -/
structure Reply (request resp : Message) : Prop where
  typ : resp.typ = .new request.typ.method .successResponse
  txid : resp.txid = request.txid
  sealable : resp.Sealable
  length_le : (encodeAttributes resp.txid resp.attributes).length ≤ 100
  lifetime : request.typ.method = .refresh → resp.lifetime = some
    (if request.lifetime.getD 600 = 0 then 0 else max (request.lifetime.getD 600) minLifetimeSecs)

section Answers

variable (d : Digests) (s : TurnServer) (draw : Draw) (raw : Bytes) (msg : Message)
  (src : SocketAddr) (now : ℕ)

theorem readable_errorCode {code : UInt16} (hcode : code < 800) (reason : String)
    (txid : TransactionId) : (Attribute.errorCode code reason).Readable txid := by
  intro hlen
  apply Attribute.Canonical.errorCode hcode
  rw [Attribute.encodeValue, length_append] at hlen
  simp only [length_cons, length_nil] at hlen
  omega

theorem exists_refusal {code : UInt16} (hcode : code < 800) (reason : String) :
    ∃ refusal, Refusal s msg code refusal ∧
      (s.refuse draw src msg code reason).2 = [.toClient src refusal.encode] := by
  have hreadable := readable_errorCode hcode reason msg.txid
  simp only [TurnServer.refuse, TurnServer.errorResponse]
  split
  · refine ⟨_, ?_, rfl⟩
    exact {
      typ := rfl
      txid := rfl
      readable := by
        intro a ha
        simp only [Message.push, Message.new, nil_append, cons_append, mem_cons,
          not_mem_nil, or_false] at ha
        rcases ha with rfl | rfl | rfl
        · exact hreadable
        · exact fun hlen => .realm hlen
        · exact fun hlen => .nonce hlen
      unsealed := rfl
      realm := by
        intro r hr
        cases hr
        rfl }
  · refine ⟨_, ?_, rfl⟩
    exact {
      typ := rfl
      txid := rfl
      readable := by
        intro a ha
        rw [mem_singleton.mp ha]
        exact hreadable
      unsealed := rfl
      realm := by
        intro r hr
        cases hr }

theorem length_encodeAddress_le (addr : SocketAddr) (txid : TransactionId) (xor : Bool) :
    (encodeAddress addr txid xor).length ≤ 20 := by
  unfold encodeAddress
  cases addr.ip <;> simp

theorem length_allocate_le (txid : TransactionId) (relayed src : SocketAddr) (secs : UInt32) :
    (encodeAttributes txid
      [.xorRelayedAddress relayed, .xorMappedAddress src, .lifetime secs]).length ≤ 100 := by
  have hrelayed := length_encodeAddress_le relayed txid true
  have hsrc := length_encodeAddress_le src txid true
  simp only [encodeAttributes, flatMap_cons, flatMap_nil, length_append,
    length_nil, Attribute.encodeInto, length_encodeTlv, Attribute.encodeValue,
    length_toBeBytes, paddedLen]
  omega

/-- Whether a request is granted, and the answer that it gets. -/
def Answered (outs : List Outbound) : Prop :=
  let asked := if (s.authenticate d raw msg).isSome then Op.ofMessage msg else none
  (∃ key resp, s.authenticate d raw msg = some key ∧ Reply msg resp ∧
    (asked.bind (s.grant src now)).isSome ∧ outs = TurnServer.success d src key resp) ∨
  (asked.bind (s.grant src now) = none ∧
    ∃ code refusal, Refusal s msg code refusal ∧ outs = [.toClient src refusal.encode])

variable {d s draw raw msg src now}

theorem Answered.refused {code : UInt16} {reason : String} (hcode : code < 800)
    (h : (if (s.authenticate d raw msg).isSome then Op.ofMessage msg else none).bind
      (s.grant src now) = none) :
    Answered d s raw msg src now (s.refuse draw src msg code reason).2 := by
  obtain ⟨refusal, hrefusal, houts⟩ := exists_refusal s draw msg src hcode reason
  exact .inr ⟨h, code, refusal, hrefusal, houts⟩

theorem reply_lifetime {method : Method} (hmethod : msg.typ.method = method) (secs : UInt32)
    (h : method = .refresh → secs =
      if msg.lifetime.getD 600 = 0 then 0 else max (msg.lifetime.getD 600) minLifetimeSecs) :
    Reply msg ((Message.new method .successResponse msg.txid).push (.lifetime secs)) where
  typ := by rw [hmethod]; rfl
  txid := rfl
  sealable := by
    constructor
    · intro a ha
      rw [mem_singleton.mp ha]
      exact .lifetime _
    · intro a ha
      rw [mem_singleton.mp ha]
      rfl
    · simp [Message.push, Message.new, encodeAttributes, Attribute.encodeInto,
        Attribute.encodeValue, paddedLen]
  length_le := by
    simp [Message.push, Message.new, encodeAttributes, Attribute.encodeInto,
      Attribute.encodeValue, paddedLen]
  lifetime hrefresh := by
    rw [← h (hmethod.symm.trans hrefresh)]
    rfl

theorem reply_allocate (hport : src.port < 2 ^ 16) (hmethod : msg.typ.method = .allocate)
    (relayed : SocketAddr) (hrelayed : relayed.port < 2 ^ 16) (secs : UInt32) :
    Reply msg ((((Message.new .allocate .successResponse msg.txid).push
      (.xorRelayedAddress relayed)).push (.xorMappedAddress src)).push (.lifetime secs)) where
  typ := by rw [hmethod]; rfl
  txid := rfl
  sealable := by
    constructor
    · intro a ha
      simp only [Message.push, Message.new, nil_append, cons_append, mem_cons,
        not_mem_nil, or_false] at ha
      rcases ha with rfl | rfl | rfl
      · exact .xorRelayedAddress hrelayed
      · exact .xorMappedAddress hport
      · exact .lifetime _
    · intro a ha
      simp only [Message.push, Message.new, nil_append, cons_append, mem_cons,
        not_mem_nil, or_false] at ha
      rcases ha with rfl | rfl | rfl <;> rfl
    · have h := length_allocate_le msg.txid relayed src secs
      exact (Nat.add_le_add_right h 32).trans_lt (by decide)
  length_le := length_allocate_le msg.txid relayed src secs
  lifetime h := absurd (hmethod.symm.trans h) (by decide)

theorem reply_of_response (hport : src.port < 2 ^ 16) {resp : Message}
    (h : s.Response src msg resp) : Reply msg resp := by
  cases h with
  | allocate hmethod port secs => exact reply_allocate hport hmethod _ port.toNat_lt secs
  | lifetime hmethod secs h => exact reply_lifetime hmethod secs h
  | permission hmethod =>
      exact {
        typ := by rw [hmethod]; rfl
        txid := rfl
        sealable := ⟨by simp [Message.new], by simp [Message.new],
          by simp [Message.new, encodeAttributes]⟩
        length_le := by simp [Message.new, encodeAttributes]
        lifetime := fun h => absurd (hmethod.symm.trans h) (by decide) }

theorem answered_dispatch (hport : src.port < 2 ^ 16) (hcls : msg.typ.cls = .request)
    (hmethod : msg.typ.method ∈ [Method.allocate, .refresh, .createPermission, .channelBind]) :
    Answered d s raw msg src now (s.dispatch d draw raw msg src now).2 := by
  have hhandled := TurnServer.handled_dispatch d s draw raw msg src now ⟨hcls, hmethod⟩
  generalize s.dispatch d draw raw msg src now = out at hhandled ⊢
  cases hhandled with
  | challenged hauth => exact .refused (by decide) (by simp [hauth])
  | refused hauth hcode h => exact .refused hcode.1 (by simp [hauth, h])
  | granted hauth h hresp =>
      exact .inl ⟨_, _, hauth, reply_of_response hport hresp, by simp [hauth, h], rfl⟩

end Answers

end Vantablack.Turn
