import Vantablack.Net.StunIntegrity
import Vantablack.Net.StunReads
import Mathlib.Data.List.Flatten

/-!
Every message of `net/stun.rs` through its encoder and its parser, sealed and unsealed. A socket
address has a flow label and a scope here, which the attributes have no room for.
-/

namespace Vantablack.Net.Stun

open Lib Layers Receive List

/-! ### Every kind of attribute -/

/-- The kinds that `decode_attribute` knows. -/
def Attr.assigned : List UInt16 :=
  [mappedAddress, username, messageIntegrity, errorCode, unknownAttributes, channelNumber, lifetime,
    xorPeerAddress, data, realm, nonce, xorRelayedAddress, requestedTransport, dontFragment,
    xorMappedAddress, priority, useCandidate, software, fingerprint, iceControlled, iceControlling]

theorem chunks2_flatMap (kinds : List UInt16) :
    chunks2 (kinds.flatMap fun kind => toBeBytes 2 kind.toNat) = kinds := by
  induction kinds with
  | nil => rfl
  | cons kind kinds ih =>
      obtain ⟨high, low, hpair⟩ := length_eq_two.mp (length_toBeBytes 2 kind.toNat)
      have hread : UInt16.ofNat (fromBeBytes [high, low]) = kind := by
        rw [← hpair, fromBeBytes_uint16]
      rw [flatMap_cons, hpair, cons_append, cons_append, nil_append, chunks2,
        ih, hread]

theorem length_flatMap_kinds (kinds : List UInt16) :
    (kinds.flatMap fun kind => toBeBytes 2 kind.toNat).length = 2 * kinds.length := by
  induction kinds with
  | nil => rfl
  | cons kind kinds ih =>
      rw [flatMap_cons, length_append, length_toBeBytes, ih, length_cons]
      omega

namespace Attribute

variable {txid : TransactionId}

theorem Canonical.mappedAddress {addr : SocketAddr} (h : addr.port < 2 ^ 16) :
    (Attribute.mappedAddress addr).Canonical txid where
  length_lt := length_encodeAddress_lt addr txid false
  decode := by
    change (decodeAddress _ txid false).map Attribute.mappedAddress = _
    rw [encodeValue, decodeAddress_encodeAddress h]
    rfl

theorem Canonical.unknownAttributes {kinds : List UInt16} (h : 2 * kinds.length < 2 ^ 16) :
    (Attribute.unknownAttributes kinds).Canonical txid where
  length_lt := by rwa [encodeValue, length_flatMap_kinds]
  decode := by
    change (if (kinds.flatMap fun kind => toBeBytes 2 kind.toNat).length % 2 ≠ 0 then _ else
      Except.ok (Attribute.unknownAttributes (chunks2 (kinds.flatMap fun kind =>
        toBeBytes 2 kind.toNat)))) = _
    rw [length_flatMap_kinds, if_neg (by omega), chunks2_flatMap]

theorem Canonical.unknown {kind : UInt16} {value : Bytes} (hkind : kind ∉ Attr.assigned)
    (h : value.length < 2 ^ 16) : (Attribute.unknown kind value).Canonical txid where
  length_lt := h
  decode := by
    change decodeAttribute kind value txid = _
    simp only [Attr.assigned, mem_cons, not_mem_nil, or_false, not_or] at hkind
    simp only [decodeAttribute, hkind, if_false]

/-- An attribute that is read back if it fits in its length field: its port is one of a socket
address, its error code has one of the digits 0 to 7 in front, and it does not pass for an
attribute of another kind. -/
def Carried : Attribute → Prop
  | .mappedAddress addr => addr.port < 2 ^ 16
  | .xorMappedAddress addr => addr.port < 2 ^ 16
  | .xorPeerAddress addr => addr.port < 2 ^ 16
  | .xorRelayedAddress addr => addr.port < 2 ^ 16
  | .errorCode code _ => code < 800
  | .unknown kind _ => kind ∉ Attr.assigned
  | _ => True

theorem Carried.canonical {a : Attribute} (h : a.Carried)
    (hlen : (a.encodeValue txid).length < 2 ^ 16) : a.Canonical txid := by
  cases a with
  | mappedAddress addr => exact .mappedAddress h
  | xorMappedAddress addr => exact .xorMappedAddress h
  | username name => exact .username hlen
  | messageIntegrity digest => exact .messageIntegrity digest
  | errorCode code reason =>
      refine .errorCode h ?_
      rw [encodeValue, length_append] at hlen
      simp only [length_cons, length_nil] at hlen
      omega
  | priority value => exact .priority value
  | useCandidate => exact .useCandidate
  | iceControlled tieBreaker => exact .iceControlled tieBreaker
  | iceControlling tieBreaker => exact .iceControlling tieBreaker
  | software text => exact .software hlen
  | fingerprint crc => exact .fingerprint crc
  | xorPeerAddress addr => exact .xorPeerAddress h
  | xorRelayedAddress addr => exact .xorRelayedAddress h
  | data payload => exact .data hlen
  | realm text => exact .realm hlen
  | nonce text => exact .nonce hlen
  | requestedTransport proto => exact .requestedTransport proto
  | lifetime secs => exact .lifetime secs
  | channelNumber channel => exact .channelNumber channel
  | unknownAttributes kinds =>
      rw [encodeValue, length_flatMap_kinds] at hlen
      exact .unknownAttributes hlen
  | dontFragment => exact .dontFragment
  | unknown kind value => exact .unknown h hlen

theorem Carried.kind_ne {a : Attribute} (h : a.Carried) (hdigest : a.isDigest = false) :
    a.kind ≠ Attr.messageIntegrity ∧ a.kind ≠ Attr.fingerprint := by
  cases a with
  | messageIntegrity digest => cases hdigest
  | fingerprint crc => cases hdigest
  | unknown kind value =>
      constructor
      · rintro rfl
        exact h (by decide)
      · rintro rfl
        exact h (by decide)
  | _ =>
      rw [kind]
      decide

end Attribute

/-! ### The fingerprint -/

inductive FingerprintError where
  | missingFingerprint
  | badFingerprint
  deriving DecidableEq

/-- `verify_fingerprint`: the length the CRC covers is rebuilt from the attribute's position. -/
def verifyFingerprint (buf : Bytes) : Except FingerprintError Unit :=
  match findRawAttribute buf Attr.fingerprint with
  | none => .error .missingFingerprint
  | some (off, _) =>
      if off + fingerprintSize > buf.length ∨ off < headerLen then .error .badFingerprint
      else
        let coveredLen := off - headerLen + fingerprintSize
        let covered := buf.take 2 ++ (toBeBytes 2 coveredLen ++ (buf.take off).drop 4)
        let expected := crc32Ieee covered ^^^ fingerprintXor
        let actual := UInt32.ofNat (fromBeBytes ((buf.drop (off + 4)).take 4))
        if expected = actual then .ok () else .error .badFingerprint

theorem covered_of_layout (typ : MessageType) (txid : TransactionId) (n n' : ℕ)
    (attrs rest : Bytes) :
    (writeHeader typ txid n ++ (attrs ++ rest)).take 2 ++ (toBeBytes 2 n' ++
        ((writeHeader typ txid n ++ (attrs ++ rest)).take (headerLen + attrs.length)).drop 4) =
      writeHeader typ txid n' ++ attrs := by
  have htake : (writeHeader typ txid n ++ (attrs ++ rest)).take (headerLen + attrs.length) =
      writeHeader typ txid n ++ attrs := by
    rw [← append_assoc]
    apply take_left'
    rw [length_append, length_writeHeader]
  rw [htake, writeHeader_append, writeHeader_append, writeHeader_append,
    take_left' (length_toBeBytes 2 _), show (4 : ℕ) = 2 + 2 from rfl, ← drop_drop,
    drop_left' (length_toBeBytes 2 _), drop_left' (length_toBeBytes 2 _)]

theorem verifyFingerprint_of_layout {typ : MessageType} {txid : TransactionId}
    {attributes : List Attribute} {n : ℕ} {crc : UInt32}
    (hkind : ∀ a ∈ attributes, a.kind ≠ Attr.fingerprint)
    (hlen : ∀ a ∈ attributes, (a.encodeValue txid).length < 2 ^ 16)
    (hn : n = (encodeAttributes txid attributes).length + fingerprintSize) (hlt : n < 2 ^ 16)
    (hcrc : crc32Ieee (writeHeader typ txid n ++ encodeAttributes txid attributes) ^^^
      fingerprintXor = crc) :
    verifyFingerprint (writeHeader typ txid n ++ (encodeAttributes txid attributes ++
      (encodeTlv Attr.fingerprint (toBeBytes 4 crc.toNat) ++ []))) = .ok () := by
  have hsize : fingerprintSize = 8 := rfl
  set attrs := encodeAttributes txid attributes
  have hfind : findRawAttribute (writeHeader typ txid n ++ (attrs ++
      (encodeTlv Attr.fingerprint (toBeBytes 4 crc.toNat) ++ []))) Attr.fingerprint =
        some (headerLen + attrs.length, 4) := by
    have hvalue : (toBeBytes 4 crc.toNat).length < 2 ^ 16 := by
      rw [length_toBeBytes]
      decide
    have hroom : attrs.length + 4 ≤ n := by omega
    rw [findRawAttribute_of_layout hkind hlen hvalue hlt hroom, length_toBeBytes]
  have hactual : ((writeHeader typ txid n ++ (attrs ++
      (encodeTlv Attr.fingerprint (toBeBytes 4 crc.toNat) ++ []))).drop
        (headerLen + attrs.length + 4)).take 4 = toBeBytes 4 crc.toNat := by
    have hvalue := value_of_layout typ txid n Attr.fingerprint attrs (toBeBytes 4 crc.toNat) []
    rwa [length_toBeBytes] at hvalue
  have hroom : ¬ (headerLen + attrs.length + fingerprintSize >
      (writeHeader typ txid n ++ (attrs ++
        (encodeTlv Attr.fingerprint (toBeBytes 4 crc.toNat) ++ []))).length ∨
      headerLen + attrs.length < headerLen) := by
    simp only [length_append, length_writeHeader, length_encodeTlv, length_toBeBytes,
      length_nil, fingerprintSize, paddedLen]
    omega
  rw [verifyFingerprint, hfind]
  dsimp only
  rw [if_neg hroom, hactual, fromBeBytes_uint32, Nat.add_sub_cancel_left,
    covered_of_layout typ txid n (attrs.length + fingerprintSize) attrs, ← hn, hcrc, if_pos rfl]

namespace Message

variable (d : Digests) {m : Message}

theorem verifyFingerprint_encodeWithIntegrity (h : m.Sealable)
    (hkind : ∀ a ∈ m.attributes, a.kind ≠ Attr.fingerprint) (key : Bytes) :
    verifyFingerprint (m.encodeWithIntegrity d key) = .ok () := by
  set digest := m.integrityTag d key with hdigest
  set crc := m.fingerprintCrc d key with hcrc
  set attributes := m.attributes ++ [.messageIntegrity digest] with hattributes
  have hlt := h.length_lt
  have hattrs : encodeAttributes m.txid attributes = encodeAttributes m.txid m.attributes ++
      encodeTlv Attr.messageIntegrity digest.toList := by
    rw [hattributes, encodeAttributes, flatMap_append, flatMap_singleton]
    rfl
  have hlen : (encodeAttributes m.txid attributes).length + fingerprintSize =
      (encodeAttributes m.txid m.attributes).length + 32 := by
    rw [hattrs, length_append, length_encodeTlv, digest.toList_length]
    rfl
  have hcrc' : crc32Ieee (writeHeader m.typ m.txid ((encodeAttributes m.txid m.attributes).length +
      32) ++ encodeAttributes m.txid attributes) ^^^ fingerprintXor = crc := by
    rw [hcrc, fingerprintCrc, stripped_of_sealable h, ← hdigest, ← hattributes, hlen]
  have hbuf : m.encodeWithIntegrity d key =
      writeHeader m.typ m.txid ((encodeAttributes m.txid m.attributes).length + 32) ++
        (encodeAttributes m.txid attributes ++
          (encodeTlv Attr.fingerprint (toBeBytes 4 crc.toNat) ++ [])) := by
    rw [encodeWithIntegrity_eq, stripped_of_sealable h, hattrs, append_nil, append_assoc]
  have hkinds : ∀ a ∈ attributes, a.kind ≠ Attr.fingerprint := by
    intro a ha
    rcases mem_append.mp ha with hmem | hmem
    · exact hkind a hmem
    · rw [mem_singleton.mp hmem, Attribute.kind]
      decide
  have hvalues : ∀ a ∈ attributes, (a.encodeValue m.txid).length < 2 ^ 16 := by
    intro a ha
    rcases mem_append.mp ha with hmem | hmem
    · exact (h.canonical a hmem).length_lt
    · have hcanonical : (Attribute.messageIntegrity digest).Canonical m.txid :=
        .messageIntegrity digest
      rw [mem_singleton.mp hmem]
      exact hcanonical.length_lt
  rw [hbuf]
  exact verifyFingerprint_of_layout hkinds hvalues hlen.symm hlt hcrc'

end Message

/-! ### Socket addresses with a flow label and a scope -/

inductive FullAddr where
  | v4 (ip : Octets 4) (port : UInt16)
  | v6 (ip : Octets 16) (port : UInt16) (flowinfo scopeId : UInt32)
  deriving DecidableEq

namespace FullAddr

/-- `addr.ip()` and `addr.port()`. -/
def plain : FullAddr → SocketAddr
  | v4 ip port => { ip := .v4 ip, port := port.toNat }
  | v6 ip port _ _ => { ip := .v6 ip, port := port.toNat }

def new (addr : SocketAddr) : FullAddr :=
  match addr.ip with
  | .v4 ip => v4 ip (UInt16.ofNat addr.port)
  | .v6 ip => v6 ip (UInt16.ofNat addr.port) 0 0

def flowinfo : FullAddr → UInt32
  | v4 _ _ => 0
  | v6 _ _ flowinfo _ => flowinfo

def scopeId : FullAddr → UInt32
  | v4 _ _ => 0
  | v6 _ _ _ scopeId => scopeId

theorem port_plain_lt (addr : FullAddr) : addr.plain.port < 2 ^ 16 := by
  cases addr with
  | v4 ip port => exact port.toNat_lt
  | v6 ip port flowinfo scopeId => exact port.toNat_lt

theorem new_plain {addr : FullAddr} (hflow : addr.flowinfo = 0) (hscope : addr.scopeId = 0) :
    new addr.plain = addr := by
  cases addr with
  | v4 ip port => exact congrArg (v4 ip) UInt16.ofNat_toNat
  | v6 ip port flowinfo scopeId =>
      cases hflow
      cases hscope
      exact congrArg (v6 ip · 0 0) UInt16.ofNat_toNat

end FullAddr

/-- The attributes that hold an address. -/
inductive AddressKind where
  | mappedAddress
  | xorMappedAddress
  | xorPeerAddress
  | xorRelayedAddress
  deriving DecidableEq

def AddressKind.attribute (addr : SocketAddr) : AddressKind → Attribute
  | mappedAddress => .mappedAddress addr
  | xorMappedAddress => .xorMappedAddress addr
  | xorPeerAddress => .xorPeerAddress addr
  | xorRelayedAddress => .xorRelayedAddress addr

def Attribute.address? : Attribute → Option (AddressKind × SocketAddr)
  | .mappedAddress addr => some (.mappedAddress, addr)
  | .xorMappedAddress addr => some (.xorMappedAddress, addr)
  | .xorPeerAddress addr => some (.xorPeerAddress, addr)
  | .xorRelayedAddress addr => some (.xorRelayedAddress, addr)
  | _ => none

/-- An attribute as the program holds it, with the whole of its address. -/
inductive FullAttribute where
  | address (kind : AddressKind) (addr : FullAddr)
  | other (a : Attribute) (h : a.address? = none)
  deriving DecidableEq

/-- What is encoded of an attribute. -/
def FullAttribute.plain : FullAttribute → Attribute
  | address kind addr => kind.attribute addr.plain
  | other a _ => a

def Attribute.full (a : Attribute) : FullAttribute :=
  match h : a.address? with
  | some (kind, addr) => .address kind (.new addr)
  | none => .other a h

structure FullMessage where
  typ : MessageType
  txid : TransactionId
  attributes : List FullAttribute
  deriving DecidableEq

def Message.full (m : Message) : FullMessage where
  typ := m.typ
  txid := m.txid
  attributes := m.attributes.map Attribute.full

namespace FullMessage

def plain (m : FullMessage) : Message where
  typ := m.typ
  txid := m.txid
  attributes := m.attributes.map FullAttribute.plain

def encode (m : FullMessage) : Bytes := m.plain.encode

def encodeWithIntegrity (d : Digests) (m : FullMessage) (key : Bytes) : Bytes :=
  m.plain.encodeWithIntegrity d key

def parse (buf : Bytes) : Except StunError FullMessage := (Stun.parse buf).map Message.full

end FullMessage

theorem full_attribute (kind : AddressKind) (addr : SocketAddr) :
    (kind.attribute addr).full = .address kind (.new addr) := by
  cases kind <;> rfl

theorem full_of_address?_eq_none {a : Attribute} (h : a.address? = none) : a.full = .other a h := by
  unfold Attribute.full
  split
  · rename_i heq
    rw [h] at heq
    cases heq
  · rfl

/-! ### Whole messages -/

/-- An error code below 800 and a kind that no attribute has; an address without a scope. -/
def FullAttribute.WellFormed : FullAttribute → Prop
  | address _ addr => addr.scopeId = 0
  | other (.errorCode code _) _ => code < 800
  | other (.unknown kind _) _ => kind ∉ Attr.assigned
  | other _ _ => True

def FullAttribute.Unlabelled : FullAttribute → Prop
  | address _ addr => addr.flowinfo = 0
  | other _ _ => True

section Attributes

variable {a : FullAttribute}

theorem carried_plain (h : a.WellFormed) : a.plain.Carried := by
  cases a with
  | address kind addr =>
      have hport := addr.port_plain_lt
      cases kind <;> exact hport
  | other a ha =>
      cases a with
      | mappedAddress addr => cases ha
      | xorMappedAddress addr => cases ha
      | xorPeerAddress addr => cases ha
      | xorRelayedAddress addr => cases ha
      | errorCode code reason => exact h
      | unknown kind value => exact h
      | _ => exact trivial

theorem full_plain (h : a.WellFormed) (hflow : a.Unlabelled) : a.plain.full = a := by
  cases a with
  | address kind addr =>
      have hnew : FullAddr.new addr.plain = addr := FullAddr.new_plain hflow h
      rw [FullAttribute.plain, full_attribute, hnew]
  | other a ha => exact full_of_address?_eq_none ha

end Attributes

theorem full_map_plain {attributes : List FullAttribute} (h : ∀ a ∈ attributes, a.WellFormed)
    (hflow : ∀ a ∈ attributes, a.Unlabelled) :
    (attributes.map FullAttribute.plain).map Attribute.full = attributes := by
  have hid : ∀ a ∈ attributes, (Attribute.full ∘ FullAttribute.plain) a = id a :=
    fun a ha => full_plain (h a ha) (hflow a ha)
  rw [map_map, map_congr_left hid, map_id]

namespace FullMessage

def stripped (m : FullMessage) : List FullAttribute :=
  m.attributes.filter fun a => !a.plain.isDigest

end FullMessage

/-- A message of well-formed attributes that leaves room for its digests. -/
structure FullMessage.WellFormed (m : FullMessage) : Prop where
  attributes : ∀ a ∈ m.attributes, a.WellFormed
  length_le : (encodeAttributes m.txid m.plain.attributes).length ≤ 65500

namespace Message

def strip (m : Message) : Message := { m with attributes := m.stripped }

theorem stripped_strip (m : Message) : m.strip.stripped = m.stripped := by
  rw [stripped, stripped, strip, stripped, filter_filter]
  simp only [Bool.and_self]

theorem sealed_strip (d : Digests) (m : Message) (key : Bytes) :
    m.strip.sealed d key = m.sealed d key := by
  have htag : m.strip.integrityTag d key = m.integrityTag d key := by
    rw [integrityTag, integrityTag, stripped_strip]
    rfl
  have hcrc : m.strip.fingerprintCrc d key = m.fingerprintCrc d key := by
    rw [fingerprintCrc, fingerprintCrc, stripped_strip, htag]
    rfl
  rw [sealed, sealed, stripped_strip, htag, hcrc]
  rfl

theorem length_stripped_le (m : Message) : (encodeAttributes m.txid m.stripped).length ≤
    (encodeAttributes m.txid m.attributes).length :=
  (filter_sublist.flatMap (Attribute.encodeInto m.txid)).length_le

end Message

namespace FullMessage

variable {m : FullMessage}

theorem carried_of_wellFormed (h : m.WellFormed) {a : Attribute} (ha : a ∈ m.plain.attributes) :
    a.Carried := by
  obtain ⟨b, hb, rfl⟩ := mem_map.mp ha
  exact carried_plain (h.attributes b hb)

theorem canonical_of_wellFormed (h : m.WellFormed) {a : Attribute} (ha : a ∈ m.plain.attributes) :
    a.Canonical m.txid := by
  have hvalue : (a.encodeValue m.txid).length ≤
      (encodeAttributes m.txid m.plain.attributes).length := length_encodeValue_le ha
  have hlen := h.length_le
  exact (carried_of_wellFormed h ha).canonical (by omega)

theorem encodable_plain (h : m.WellFormed) : m.plain.Encodable where
  canonical _ ha := canonical_of_wellFormed h ha
  length_lt := by
    have hlen := h.length_le
    have htxid : m.plain.txid = m.txid := rfl
    rw [htxid]
    omega

theorem kind_ne_of_stripped (h : m.WellFormed) {a : Attribute} (ha : a ∈ m.plain.stripped) :
    a.kind ≠ Attr.messageIntegrity ∧ a.kind ≠ Attr.fingerprint := by
  obtain ⟨hmem, hdigest⟩ := mem_filter.mp ha
  exact (carried_of_wellFormed h hmem).kind_ne (by simpa using hdigest)

theorem sealable_strip (h : m.WellFormed) : m.plain.strip.Sealable where
  canonical a ha := canonical_of_wellFormed h (mem_filter.mp ha).1
  plain a ha := by
    rw [Attribute.isPlain, (mem_filter.mp ha).2, Bool.true_and]
    exact bne_iff_ne.mpr (kind_ne_of_stripped h ha).1
  length_lt := by
    have hle := m.plain.length_stripped_le
    have hlen := h.length_le
    have hstrip : encodeAttributes m.plain.strip.txid m.plain.strip.attributes =
        encodeAttributes m.plain.txid m.plain.stripped := rfl
    have htxid : m.plain.txid = m.txid := rfl
    rw [hstrip]
    rw [htxid] at hle ⊢
    omega

theorem full_plain (h : m.WellFormed) (hflow : ∀ a ∈ m.attributes, a.Unlabelled) :
    m.plain.full = m := by
  rw [plain, Message.full, full_map_plain h.attributes hflow]

theorem stripped_plain (m : FullMessage) :
    m.plain.stripped = m.stripped.map FullAttribute.plain := by
  rw [Message.stripped, stripped, plain, filter_map]
  rfl

theorem full_sealed (h : m.WellFormed) (hflow : ∀ a ∈ m.attributes, a.Unlabelled) (d : Digests)
    (key : Bytes) :
    (m.plain.sealed d key).full =
      { m with attributes := m.stripped ++
          [.other (.messageIntegrity (m.plain.integrityTag d key)) rfl,
           .other (.fingerprint (m.plain.fingerprintCrc d key)) rfl] } := by
  have hstripped : (m.stripped.map FullAttribute.plain).map Attribute.full = m.stripped :=
    full_map_plain (fun a ha => h.attributes a (mem_filter.mp ha).1)
      (fun a ha => hflow a (mem_filter.mp ha).1)
  rw [Message.sealed, Message.full, map_append, stripped_plain, hstripped]
  rfl

/-- Messages without flow labels come back from the wire as they were, or with their digests at the
end when they were sealed, and both digests verify. The parser reads no byte outside a datagram. -/
theorem round_trip (d : Digests) (m : FullMessage) (key : Bytes) (h : m.WellFormed)
    (hflow : ∀ a ∈ m.attributes, a.Unlabelled) :
    parse m.encode = .ok m ∧
      (∃ digest crc, parse (m.encodeWithIntegrity d key) =
        .ok { m with attributes := m.stripped ++
          [.other (.messageIntegrity digest) rfl, .other (.fingerprint crc) rfl] }) ∧
      verifyIntegrity d (m.encodeWithIntegrity d key) key = .ok () ∧
      verifyFingerprint (m.encodeWithIntegrity d key) = .ok () ∧
      ∀ buf, parseReading buf = some (Stun.parse buf) := by
  have hseal : m.encodeWithIntegrity d key = m.plain.strip.encodeWithIntegrity d key := by
    rw [encodeWithIntegrity, Message.encodeWithIntegrity, Message.encodeWithIntegrity,
      Message.sealed_strip]
  have hsealable := sealable_strip h
  refine ⟨?_, ⟨m.plain.integrityTag d key, m.plain.fingerprintCrc d key, ?_⟩, ?_, ?_,
    parseReading_eq⟩
  · have hparse := parse_encode (encodable_plain h) []
    rw [append_nil] at hparse
    rw [parse, encode, hparse, Except.map, full_plain h hflow]
  · rw [parse, hseal, Message.parse_encodeWithIntegrity d hsealable, Message.sealed_strip,
      Except.map, full_sealed h hflow]
  · rw [hseal]
    exact Message.verifyIntegrity_encodeWithIntegrity d hsealable key
  · rw [hseal]
    exact Message.verifyFingerprint_encodeWithIntegrity d hsealable
      (fun a ha => (kind_ne_of_stripped h ha).2) key

/-- A message of every class of attribute, with digests of an earlier sealing in front. -/
def sample : FullMessage where
  typ := .new .binding .errorResponse
  txid := .replicate 12 7
  attributes :=
    [.other (.messageIntegrity (.replicate 20 1)) rfl,
     .other (.fingerprint 5) rfl,
     .address .xorMappedAddress (.v6 (.replicate 16 2) 3478 0 0),
     .address .mappedAddress (.v4 (.replicate 4 9) 80),
     .other (.errorCode 799 "é") rfl,
     .other (.unknownAttributes [0x8022, 3]) rfl,
     .other (.unknown 0x7777 [1, 2, 3]) rfl]

theorem round_trip_sample :
    parse sample.encode = .ok sample ∧
      (∃ digest crc, parse (sample.encodeWithIntegrity .front [1, 2]) =
        .ok { sample with attributes := sample.stripped ++
          [.other (.messageIntegrity digest) rfl, .other (.fingerprint crc) rfl] }) ∧
      verifyIntegrity .front (sample.encodeWithIntegrity .front [1, 2]) [1, 2] = .ok () ∧
      verifyFingerprint (sample.encodeWithIntegrity .front [1, 2]) = .ok () ∧
      ∀ buf, parseReading buf = some (Stun.parse buf) := by
  refine round_trip .front sample [1, 2] ⟨?_, by decide +kernel⟩ ?_
  · simp only [sample, forall_mem_cons, FullAttribute.WellFormed, FullAddr.scopeId,
      not_mem_nil, false_imp_iff, implies_true, and_true, true_and]
    decide
  · simp only [sample, forall_mem_cons, FullAttribute.Unlabelled, FullAddr.flowinfo,
      not_mem_nil, false_imp_iff, implies_true, and_true]

/-- A flow label is lost on the wire. -/
def labelled : FullMessage where
  typ := .new .binding .successResponse
  txid := .replicate 12 7
  attributes := [.address .mappedAddress (.v6 (.replicate 16 2) 3478 1 0)]

theorem not_round_trip_labelled :
    labelled.WellFormed ∧ labelled.typ.value.toNat < 2 ^ 14 ∧
      parse labelled.encode ≠ .ok labelled := by
  refine ⟨⟨?_, by decide +kernel⟩, by decide, by decide +kernel⟩
  simp only [labelled, forall_mem_cons, FullAttribute.WellFormed, FullAddr.scopeId,
    not_mem_nil, false_imp_iff, implies_true, and_true]

end FullMessage

end Vantablack.Net.Stun
