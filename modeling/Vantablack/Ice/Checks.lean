import Vantablack.Ice.Agent

/-!
A check between two agents: the request that one of them builds is read by the other as it was
built, and a response is read as a response.
-/

namespace Vantablack.Ice

open Lib Layers Receive Net Stun

theorem length_utf8_software : (utf8 software).length = 15 := by decide

namespace IceAgent

variable {a : IceAgent} {remote : IceCredentials} (pair : CandidatePair) (nominate : Bool)
  (txid : TransactionId)

theorem attributes_checkMessage (a : IceAgent) (remote : IceCredentials) :
    (a.checkMessage remote pair nominate txid).attributes =
      [.software software, .username (utf8 (a.usernameForOutgoing remote)),
        .priority pair.local_.priority] ++
      ((if nominate ∧ a.role = .controlling then [Attribute.useCandidate] else []) ++
        [a.roleAttr]) := by
  unfold checkMessage
  split <;> rfl

theorem txid_checkMessage (a : IceAgent) (remote : IceCredentials) :
    (a.checkMessage remote pair nominate txid).txid = txid := by
  unfold checkMessage
  split <;> rfl

theorem typ_checkMessage (a : IceAgent) (remote : IceCredentials) :
    (a.checkMessage remote pair nominate txid).typ = .new .binding .request := by
  unfold checkMessage
  split <;> rfl

theorem length_usernameForOutgoing (hremote : remote.Valid) (hlocal : a.localCredentials.Valid) :
    (utf8 (a.usernameForOutgoing remote)).length ≤ 513 := by
  obtain ⟨-, hremote, -⟩ := hremote
  obtain ⟨-, hlocal, -⟩ := hlocal
  have hcolon : (utf8 ":").length = 1 := by decide
  rw [usernameForOutgoing, utf8_append, utf8_append, List.length_append, List.length_append, hcolon]
  omega

theorem canonical_roleAttr (a : IceAgent) : a.roleAttr.Canonical txid := by
  unfold roleAttr
  cases a.role
  · exact .iceControlling _
  · exact .iceControlled _

theorem isPlain_roleAttr (a : IceAgent) : a.roleAttr.isPlain = true := by
  unfold roleAttr
  cases a.role <;> rfl

theorem length_encodeInto_roleAttr (a : IceAgent) : (a.roleAttr.encodeInto txid).length = 12 := by
  unfold roleAttr
  cases a.role <;> simp [Attribute.encodeInto, Attribute.encodeValue, paddedLen]

theorem sealable_checkMessage (hremote : remote.Valid) (hlocal : a.localCredentials.Valid) :
    (a.checkMessage remote pair nominate txid).Sealable := by
  have hname := length_usernameForOutgoing hremote hlocal
  have hsoftware := length_utf8_software
  constructor
  · rw [attributes_checkMessage, txid_checkMessage]
    intro attr hattr
    simp only [List.mem_append, List.mem_cons, List.not_mem_nil, or_false] at hattr
    rcases hattr with (rfl | rfl | rfl) | hattr | rfl
    · exact .software (by omega)
    · exact .username (by omega)
    · exact .priority _
    · split at hattr
      · rw [List.mem_singleton.mp hattr]
        exact .useCandidate
      · cases hattr
    · exact canonical_roleAttr txid a
  · rw [attributes_checkMessage]
    intro attr hattr
    simp only [List.mem_append, List.mem_cons, List.not_mem_nil, or_false] at hattr
    rcases hattr with (rfl | rfl | rfl) | hattr | rfl
    · rfl
    · rfl
    · rfl
    · split at hattr
      · rw [List.mem_singleton.mp hattr]
        rfl
      · cases hattr
    · exact isPlain_roleAttr a
  · rw [attributes_checkMessage, txid_checkMessage]
    have hflag : (encodeAttributes txid
        (if nominate ∧ a.role = .controlling then [Attribute.useCandidate] else [])).length ≤ 4 := by
      split <;> simp [encodeAttributes, Attribute.encodeInto, Attribute.encodeValue, paddedLen]
    have hrole := length_encodeInto_roleAttr txid a
    rw [encodeAttributes] at hflag
    simp only [encodeAttributes, List.flatMap_append, List.flatMap_cons, List.flatMap_nil,
      List.length_append, List.length_nil, hrole]
    simp only [Attribute.encodeInto, length_encodeTlv, Attribute.encodeValue, hsoftware,
      length_toBeBytes, paddedLen]
    omega

variable (d : Digests)

theorem claims_sealed (a : IceAgent) (remote : IceCredentials) (key : Bytes) (role : IceRole) :
    claims ((a.checkMessage remote pair nominate txid).sealed d key) role =
      decide (role = a.role) := by
  unfold checkMessage roleAttr
  cases a.role <;> cases nominate <;> cases role <;> rfl

theorem peerTie_sealed (a : IceAgent) (remote : IceCredentials) (key : Bytes) :
    peerTie ((a.checkMessage remote pair nominate txid).sealed d key) = a.tieBreaker := by
  unfold checkMessage roleAttr
  cases a.role <;> cases nominate <;> rfl

theorem useCandidate_sealed (a : IceAgent) (remote : IceCredentials) (key : Bytes) :
    (((a.checkMessage remote pair nominate txid).sealed d key).get Attr.useCandidate).isSome =
      (nominate && decide (a.role = .controlling)) := by
  unfold checkMessage roleAttr
  cases a.role <;> cases nominate <;> rfl

theorem handleCheck_request {m : Message} {key : Bytes} (hm : m.Sealable)
    (htyp : m.typ = .new .binding .request) (hkey : utf8 a.localCredentials.password = key)
    (src : SocketAddr) (now : ℕ) :
    a.handleCheck d (m.encodeWithIntegrity d key) src now =
      ((a.processRequest d (m.sealed d key) src).1,
        (a.processRequest d (m.sealed d key) src).2.map some) := by
  have hmethod : (m.sealed d key).typ.method = .binding := by
    rw [Message.sealed, htyp]
    decide
  have hcls : (m.sealed d key).typ.cls = .request := by
    rw [Message.sealed, htyp]
    decide
  simp only [handleCheck, Message.parse_encodeWithIntegrity d hm, hmethod, hcls, handleRequest, hkey,
    Message.verifyIntegrity_encodeWithIntegrity d hm, ne_eq, not_true_eq_false, if_false]

theorem handleCheck_response {m : Message} (htyp : m.typ = .new .binding .successResponse)
    (a : IceAgent) (src : SocketAddr) (now : ℕ) :
    (a.handleCheck d m.encode src now).1 = a ∨
      ∃ msg : Message, msg.txid = m.txid ∧
        (a.handleCheck d m.encode src now).1 = (a.processResponse msg src now).1 := by
  unfold handleCheck
  split
  · exact .inl rfl
  · rename_i msg hparse
    have hcls : msg.typ.cls = .successResponse := by
      rw [typ_of_parse hparse, htyp]
      decide
    split
    · exact .inl rfl
    · simp only [hcls, handleResponse]
      split
      · exact .inl rfl
      · split
        · exact .inl rfl
        · exact .inr ⟨msg, txid_of_parse hparse, rfl⟩

theorem party_handleCheck_of_response {m : Message}
    (htyp : m.typ = .new .binding .successResponse) (a : IceAgent) (src : SocketAddr) (now : ℕ) :
    (a.handleCheck d m.encode src now).1.party = a.party := by
  rcases handleCheck_response d htyp a src now with hsame | ⟨msg, -, heq⟩
  · rw [hsame]
  · rw [heq, party_processResponse]

end IceAgent

end Vantablack.Ice
