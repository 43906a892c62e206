import Vantablack.Net.Utf8
import Vantablack.Receive.Spool
import Mathlib.Data.List.Basic

/-!
The STUN codec of `net/stun.rs`: messages, their attributes as padded TLVs, encoding and parsing.
Values of a fixed width are `UIntN`; a port is a natural number, and it is one that a socket
address can have if it is below `2 ^ 16`.
-/

namespace Vantablack.Net

open Lib Layers Receive List

namespace Stun

def magicCookie : ℕ := 0x2112A442

/-- Type (2), length (2), cookie (4), transaction ID (12). -/
def headerLen : ℕ := 20

namespace Attr

def mappedAddress : UInt16 := 0x0001
def username : UInt16 := 0x0006
def messageIntegrity : UInt16 := 0x0008
def errorCode : UInt16 := 0x0009
def unknownAttributes : UInt16 := 0x000A
def channelNumber : UInt16 := 0x000C
def lifetime : UInt16 := 0x000D
def xorPeerAddress : UInt16 := 0x0012
def data : UInt16 := 0x0013
def realm : UInt16 := 0x0014
def nonce : UInt16 := 0x0015
def xorRelayedAddress : UInt16 := 0x0016
def requestedTransport : UInt16 := 0x0019
def dontFragment : UInt16 := 0x001A
def xorMappedAddress : UInt16 := 0x0020
def priority : UInt16 := 0x0024
def useCandidate : UInt16 := 0x0025
def software : UInt16 := 0x8022
def fingerprint : UInt16 := 0x8028
def iceControlled : UInt16 := 0x8029
def iceControlling : UInt16 := 0x802A

end Attr

/-- `REQUESTED-TRANSPORT` for UDP. -/
def transportUdp : UInt8 := 17

def channelNumberMin : UInt16 := 0x4000
def channelNumberMax : UInt16 := 0x7FFF

def familyIpv4 : UInt8 := 1
def familyIpv6 : UInt8 := 2

inductive StunError where
  | tooShort
  | badMagicCookie
  | lengthMismatch (declared actual : ℕ)
  | unpaddedLength
  | truncatedAttribute
  | truncatedValue
  | unknownFamily (family : UInt8)
  | missingIntegrity
  | badIntegrity
  | malformed (what : String)
  deriving DecidableEq

/-! ### Message types -/

inductive Class where
  | request
  | indication
  | successResponse
  | errorResponse
  deriving DecidableEq

def Class.bits : Class → UInt16
  | .request => 0
  | .indication => 1
  | .successResponse => 2
  | .errorResponse => 3

structure Method where
  code : UInt16
  deriving DecidableEq

namespace Method

def binding : Method := ⟨0x001⟩
def allocate : Method := ⟨0x003⟩
def refresh : Method := ⟨0x004⟩
def send : Method := ⟨0x006⟩
def data : Method := ⟨0x007⟩
def createPermission : Method := ⟨0x008⟩
def channelBind : Method := ⟨0x009⟩

end Method

/-- Method and class interleaved as on the wire. -/
structure MessageType where
  value : UInt16
  deriving DecidableEq

namespace MessageType

/-- Class bit 0 is type bit 4, class bit 1 is type bit 8. -/
def new (method : Method) (cls : Class) : MessageType :=
  let (m, c) := (method.code, cls.bits)
  let (low, middle, high) : UInt16 × UInt16 × UInt16 := (0x000F, 0x0070, 0x0F80)
  let (bit0, bit1) : UInt16 × UInt16 := (0x01, 0x02)
  ⟨(m &&& low) ||| (m &&& middle) <<< 1 ||| (m &&& high) <<< 2 ||| (c &&& bit0) <<< 4 |||
    (c &&& bit1) <<< 7⟩

def method (t : MessageType) : Method :=
  let (low, middle, high) : UInt16 × UInt16 × UInt16 := (0x000F, 0x00E0, 0x3E00)
  ⟨(t.value &&& low) ||| (t.value &&& middle) >>> 1 ||| (t.value &&& high) >>> 2⟩

def cls (t : MessageType) : Class :=
  let (bit0, bit1) : UInt16 × UInt16 := (0x01, 0x02)
  let bits := (t.value >>> 4 &&& bit0) ||| (t.value >>> 7 &&& bit1)
  if bits = 0 then .request
  else if bits = 1 then .indication
  else if bits = 2 then .successResponse
  else .errorResponse

end MessageType

abbrev TransactionId := Octets 12

/-! ### Attributes -/

inductive Attribute where
  | mappedAddress (addr : SocketAddr)
  | xorMappedAddress (addr : SocketAddr)
  | username (name : Bytes)
  | messageIntegrity (digest : Octets 20)
  | errorCode (code : UInt16) (reason : String)
  | priority (value : UInt32)
  | useCandidate
  | iceControlled (tieBreaker : UInt64)
  | iceControlling (tieBreaker : UInt64)
  | software (text : String)
  | fingerprint (crc : UInt32)
  | xorPeerAddress (addr : SocketAddr)
  | xorRelayedAddress (addr : SocketAddr)
  | data (payload : Bytes)
  | realm (text : String)
  | nonce (text : String)
  | requestedTransport (proto : UInt8)
  | lifetime (secs : UInt32)
  | channelNumber (channel : UInt16)
  | unknownAttributes (kinds : List UInt16)
  | dontFragment
  | unknown (kind : UInt16) (value : Bytes)
  deriving DecidableEq

def Attribute.kind : Attribute → UInt16
  | .mappedAddress _ => Attr.mappedAddress
  | .xorMappedAddress _ => Attr.xorMappedAddress
  | .username _ => Attr.username
  | .messageIntegrity _ => Attr.messageIntegrity
  | .errorCode _ _ => Attr.errorCode
  | .priority _ => Attr.priority
  | .useCandidate => Attr.useCandidate
  | .iceControlled _ => Attr.iceControlled
  | .iceControlling _ => Attr.iceControlling
  | .software _ => Attr.software
  | .fingerprint _ => Attr.fingerprint
  | .xorPeerAddress _ => Attr.xorPeerAddress
  | .xorRelayedAddress _ => Attr.xorRelayedAddress
  | .data _ => Attr.data
  | .realm _ => Attr.realm
  | .nonce _ => Attr.nonce
  | .requestedTransport _ => Attr.requestedTransport
  | .lifetime _ => Attr.lifetime
  | .channelNumber _ => Attr.channelNumber
  | .unknownAttributes _ => Attr.unknownAttributes
  | .dontFragment => Attr.dontFragment
  | .unknown kind _ => kind

/-- The bytes an address is XORed with. -/
def xorOctets {n : ℕ} (mask raw : Octets n) : Octets n :=
  List.Vector.map₂ (· ^^^ ·) mask raw

def mask4 : Octets 4 := Block.zeroPadded 4 (toBeBytes 4 magicCookie)

def mask16 (txid : TransactionId) : Octets 16 :=
  Block.zeroPadded 16 (toBeBytes 4 magicCookie ++ txid.toList)

def maskPort (port : ℕ) : ℕ := port ^^^ (magicCookie / 2 ^ 16)

/-- `xor` selects the obfuscated form. -/
def encodeAddress (addr : SocketAddr) (txid : TransactionId) (xor : Bool) : Bytes :=
  let port := if xor then maskPort addr.port else addr.port
  match addr.ip with
  | .v4 octets =>
      0 :: familyIpv4 :: (toBeBytes 2 port ++
        (if xor then xorOctets mask4 octets else octets).toList)
  | .v6 octets =>
      0 :: familyIpv6 :: (toBeBytes 2 port ++
        (if xor then xorOctets (mask16 txid) octets else octets).toList)

def decodeAddress (value : Bytes) (txid : TransactionId) (xor : Bool) :
    Except StunError SocketAddr :=
  if value.length < 4 then .error (.malformed "address attribute shorter than 4 bytes")
  else
    let family := value.getD 1 0
    let wire := fromBeBytes ((value.drop 2).take 2)
    let port := if xor then maskPort wire else wire
    if family = familyIpv4 then
      if value.length < 8 then .error (.malformed "IPv4 address attribute needs 8 bytes")
      else
        let raw : Octets 4 := Block.zeroPadded 4 ((value.drop 4).take 4)
        .ok { ip := .v4 (if xor then xorOctets mask4 raw else raw), port := port }
    else if family = familyIpv6 then
      if value.length < 20 then .error (.malformed "IPv6 address attribute needs 20 bytes")
      else
        let raw : Octets 16 := Block.zeroPadded 16 ((value.drop 4).take 16)
        .ok { ip := .v6 (if xor then xorOctets (mask16 txid) raw else raw), port := port }
    else .error (.unknownFamily family)

/-- The attribute's value, without its header and padding. -/
def Attribute.encodeValue (txid : TransactionId) : Attribute → Bytes
  | .mappedAddress addr => encodeAddress addr txid false
  | .xorMappedAddress addr => encodeAddress addr txid true
  | .username name => name
  | .messageIntegrity digest => digest.toList
  | .errorCode code reason =>
      [0, 0, UInt8.ofNat (code.toNat / 100) &&& 0x07, UInt8.ofNat (code.toNat % 100)] ++
        utf8 reason
  | .priority value => toBeBytes 4 value.toNat
  | .useCandidate => []
  | .iceControlled tieBreaker => toBeBytes 8 tieBreaker.toNat
  | .iceControlling tieBreaker => toBeBytes 8 tieBreaker.toNat
  | .software text => utf8 text
  | .fingerprint crc => toBeBytes 4 crc.toNat
  | .xorPeerAddress addr => encodeAddress addr txid true
  | .xorRelayedAddress addr => encodeAddress addr txid true
  | .data payload => payload
  | .realm text => utf8 text
  | .nonce text => utf8 text
  | .requestedTransport proto => [proto, 0, 0, 0]
  | .lifetime secs => toBeBytes 4 secs.toNat
  | .channelNumber channel => toBeBytes 2 channel.toNat ++ [0, 0]
  | .unknownAttributes kinds => kinds.flatMap fun kind => toBeBytes 2 kind.toNat
  | .dontFragment => []
  | .unknown _ value => value

def paddedLen (len : ℕ) : ℕ := (len + 3) / 4 * 4

/-- A TLV. Everything in front of it is a multiple of four bytes long, so padding the output to a
multiple of four pads the value. -/
def encodeTlv (kind : UInt16) (value : Bytes) : Bytes :=
  toBeBytes 2 kind.toNat ++ (toBeBytes 2 value.length ++
    (value ++ replicate (paddedLen value.length - value.length) 0))

def Attribute.encodeInto (txid : TransactionId) (a : Attribute) : Bytes :=
  encodeTlv a.kind (a.encodeValue txid)

/-- Pairs of bytes; an odd last byte is left out. -/
def chunks2 : Bytes → List UInt16
  | a :: b :: rest => UInt16.ofNat (fromBeBytes [a, b]) :: chunks2 rest
  | _ => []

def readU64 (value : Bytes) : Except StunError UInt64 :=
  if value.length < 8 then .error (.malformed "64-bit attribute shorter than 8 bytes")
  else .ok (UInt64.ofNat (fromBeBytes (value.take 8)))

def readU32 (value : Bytes) (what : String) : Except StunError UInt32 :=
  if value.length < 4 then .error (.malformed what)
  else .ok (UInt32.ofNat (fromBeBytes (value.take 4)))

def decodeAttribute (kind : UInt16) (value : Bytes) (txid : TransactionId) :
    Except StunError Attribute :=
  if kind = Attr.mappedAddress then (decodeAddress value txid false).map .mappedAddress
  else if kind = Attr.xorMappedAddress then (decodeAddress value txid true).map .xorMappedAddress
  else if kind = Attr.username then .ok (.username value)
  else if kind = Attr.messageIntegrity then
    if value.length < 20 then .error (.malformed "MESSAGE-INTEGRITY shorter than 20 bytes")
    else .ok (.messageIntegrity (Block.zeroPadded 20 (value.take 20)))
  else if kind = Attr.errorCode then
    if value.length < 4 then .error (.malformed "ERROR-CODE shorter than 4 bytes")
    else
      .ok (.errorCode (UInt16.ofNat ((value.getD 2 0 &&& 0x07).toNat * 100 + (value.getD 3 0).toNat))
        (fromUtf8Lossy (value.drop 4)))
  else if kind = Attr.priority then
    (readU32 value "PRIORITY shorter than 4 bytes").map .priority
  else if kind = Attr.useCandidate then .ok .useCandidate
  else if kind = Attr.iceControlled then (readU64 value).map .iceControlled
  else if kind = Attr.iceControlling then (readU64 value).map .iceControlling
  else if kind = Attr.software then .ok (.software (fromUtf8Lossy value))
  else if kind = Attr.xorPeerAddress then (decodeAddress value txid true).map .xorPeerAddress
  else if kind = Attr.xorRelayedAddress then
    (decodeAddress value txid true).map .xorRelayedAddress
  else if kind = Attr.data then .ok (.data value)
  else if kind = Attr.realm then .ok (.realm (fromUtf8Lossy value))
  else if kind = Attr.nonce then .ok (.nonce (fromUtf8Lossy value))
  else if kind = Attr.requestedTransport then
    match value with
    | [] => .error (.malformed "REQUESTED-TRANSPORT shorter than 1 byte")
    | proto :: _ => .ok (.requestedTransport proto)
  else if kind = Attr.lifetime then
    (readU32 value (if value = [] then "LIFETIME empty" else "LIFETIME short")).map .lifetime
  else if kind = Attr.channelNumber then
    if value.length < 2 then .error (.malformed "CHANNEL-NUMBER short")
    else .ok (.channelNumber (UInt16.ofNat (fromBeBytes (value.take 2))))
  else if kind = Attr.unknownAttributes then
    if value.length % 2 ≠ 0 then .error (.malformed "UNKNOWN-ATTRIBUTES not even")
    else .ok (.unknownAttributes (chunks2 value))
  else if kind = Attr.dontFragment then .ok .dontFragment
  else if kind = Attr.fingerprint then
    (readU32 value "FINGERPRINT shorter than 4 bytes").map .fingerprint
  else .ok (.unknown kind value)

/-! ### Messages -/

structure Message where
  typ : MessageType
  txid : TransactionId
  attributes : List Attribute
  deriving DecidableEq

namespace Message

def new (method : Method) (cls : Class) (txid : TransactionId) : Message where
  typ := .new method cls
  txid := txid
  attributes := []

def push (m : Message) (a : Attribute) : Message :=
  { m with attributes := m.attributes ++ [a] }

/-- The first attribute of a kind, wherever it stands. -/
def get (m : Message) (kind : UInt16) : Option Attribute :=
  m.attributes.find? (·.kind = kind)

def xorMappedAddress (m : Message) : Option SocketAddr :=
  match m.get Attr.xorMappedAddress with
  | some (.xorMappedAddress addr) => some addr
  | _ =>
      match m.get Attr.mappedAddress with
      | some (.mappedAddress addr) => some addr
      | _ => none

def xorRelayedAddress (m : Message) : Option SocketAddr :=
  match m.get Attr.xorRelayedAddress with
  | some (.xorRelayedAddress addr) => some addr
  | _ => none

def xorPeerAddress (m : Message) : Option SocketAddr :=
  match m.get Attr.xorPeerAddress with
  | some (.xorPeerAddress addr) => some addr
  | _ => none

def data (m : Message) : Option Bytes :=
  match m.get Attr.data with
  | some (.data payload) => some payload
  | _ => none

def realm (m : Message) : Option String :=
  match m.get Attr.realm with
  | some (.realm text) => some text
  | _ => none

def nonce (m : Message) : Option String :=
  match m.get Attr.nonce with
  | some (.nonce text) => some text
  | _ => none

def lifetime (m : Message) : Option UInt32 :=
  match m.get Attr.lifetime with
  | some (.lifetime secs) => some secs
  | _ => none

def channelNumber (m : Message) : Option UInt16 :=
  match m.get Attr.channelNumber with
  | some (.channelNumber channel) => some channel
  | _ => none

def requestedTransport (m : Message) : Option UInt8 :=
  match m.get Attr.requestedTransport with
  | some (.requestedTransport proto) => some proto
  | _ => none

def errorCode (m : Message) : Option (UInt16 × String) :=
  match m.get Attr.errorCode with
  | some (.errorCode code reason) => some (code, reason)
  | _ => none

end Message

def software : String := "GhostNet/0.8.21"

def bindingRequest (txid : TransactionId) : Message :=
  (Message.new .binding .request txid).push (.software software)

def bindingSuccess (txid : TransactionId) (mapped : SocketAddr) : Message :=
  ((Message.new .binding .successResponse txid).push (.xorMappedAddress mapped)).push
    (.software software)

/-- The header, with the given number of attribute bytes as the length (a `u16`). -/
def writeHeader (typ : MessageType) (txid : TransactionId) (attrLen : ℕ) : Bytes :=
  toBeBytes 2 typ.value.toNat ++ (toBeBytes 2 attrLen ++ (toBeBytes 4 magicCookie ++ txid.toList))

def encodeAttributes (txid : TransactionId) (attributes : List Attribute) : Bytes :=
  attributes.flatMap (Attribute.encodeInto txid)

def Message.encode (m : Message) : Bytes :=
  let attrs := encodeAttributes m.txid m.attributes
  writeHeader m.typ m.txid attrs.length ++ attrs

/-- The loop of `Message::parse` over what is left of the body, which every attribute shortens by
four bytes or more. -/
def parseAttributes (txid : TransactionId) : ℕ → Bytes → Except StunError (List Attribute)
  | 0, _ => .ok []
  | fuel + 1, rest =>
      if rest = [] then .ok []
      else if rest.length < 4 then .error .truncatedAttribute
      else
        let kind := UInt16.ofNat (fromBeBytes (rest.take 2))
        let len := fromBeBytes ((rest.drop 2).take 2)
        if rest.length < 4 + len then .error .truncatedValue
        else
          match decodeAttribute kind ((rest.drop 4).take len) txid with
          | .error e => .error e
          | .ok a =>
              if rest.length < 4 + paddedLen len then .error .truncatedValue
              else (parseAttributes txid fuel (rest.drop (4 + paddedLen len))).map (a :: ·)

def parse (buf : Bytes) : Except StunError Message :=
  if buf.length < headerLen then .error .tooShort
  else
    let typ : MessageType := ⟨UInt16.ofNat (fromBeBytes (buf.take 2))⟩
    let declared := fromBeBytes ((buf.drop 2).take 2)
    if declared % 4 ≠ 0 then .error .unpaddedLength
    else if fromBeBytes ((buf.drop 4).take 4) ≠ magicCookie then .error .badMagicCookie
    else
      let txid : TransactionId := Block.zeroPadded 12 ((buf.drop 8).take 12)
      let available := buf.length - headerLen
      if declared > available then .error (.lengthMismatch declared available)
      else
        let body := (buf.drop headerLen).take declared
        (parseAttributes txid body.length body).map fun attributes =>
          { typ := typ, txid := txid, attributes := attributes }

/-! ### Reading back what was encoded -/

theorem maskPort_lt {port : ℕ} (h : port < 2 ^ 16) : maskPort port < 2 ^ 16 :=
  Nat.xor_lt_two_pow h (by decide)

@[simp] theorem maskPort_maskPort (port : ℕ) : maskPort (maskPort port) = port := by
  rw [maskPort, maskPort, Nat.xor_assoc, Nat.xor_self, Nat.xor_zero]

variable {n : ℕ}

@[simp] theorem xorOctets_xorOctets (mask raw : Octets n) :
    xorOctets mask (xorOctets mask raw) = raw := by
  apply List.Vector.ext
  intro i
  rw [xorOctets, xorOctets, List.Vector.get_map₂, List.Vector.get_map₂, ← UInt8.xor_assoc,
    UInt8.xor_self, UInt8.zero_xor]

theorem utf8_append (s t : String) : utf8 (s ++ t) = utf8 s ++ utf8 t := by
  simp [utf8, String.toUTF8_eq_toByteArray]

theorem fromBeBytes_uint16 (n : UInt16) : UInt16.ofNat (fromBeBytes (toBeBytes 2 n.toNat)) = n := by
  rw [fromBeBytes_toBeBytes n.toNat_lt, UInt16.ofNat_toNat]

theorem fromBeBytes_uint32 (n : UInt32) : UInt32.ofNat (fromBeBytes (toBeBytes 4 n.toNat)) = n := by
  rw [fromBeBytes_toBeBytes n.toNat_lt, UInt32.ofNat_toNat]

theorem fromBeBytes_uint64 (n : UInt64) : UInt64.ofNat (fromBeBytes (toBeBytes 8 n.toNat)) = n := by
  rw [fromBeBytes_toBeBytes n.toNat_lt, UInt64.ofNat_toNat]

theorem take_port {wire : ℕ} (h : wire < 2 ^ 16) (raw : Octets n) :
    fromBeBytes ((toBeBytes 2 wire ++ raw.toList).take 2) = wire := by
  rw [take_left' (length_toBeBytes 2 wire), fromBeBytes_toBeBytes h]

theorem drop_port (wire : ℕ) (raw : Octets n) :
    Block.zeroPadded n (((toBeBytes 2 wire ++ raw.toList).drop 2).take n) = raw := by
  rw [drop_left' (length_toBeBytes 2 wire), take_of_length_le raw.toList_length.le]
  exact Block.toList_inj.mp (Block.toList_zeroPadded_of_length raw.toList_length)

theorem decodeAddress_v4 {wire : ℕ} (h : wire < 2 ^ 16) (raw : Octets 4) (txid : TransactionId)
    (xor : Bool) :
    decodeAddress (0 :: familyIpv4 :: (toBeBytes 2 wire ++ raw.toList)) txid xor =
      .ok { ip := .v4 (if xor then xorOctets mask4 raw else raw),
            port := if xor then maskPort wire else wire } := by
  simp only [decodeAddress, length_cons, length_append, length_toBeBytes,
    raw.toList_length, drop_succ_cons, drop_zero, take_port h, drop_port]
  rfl

theorem decodeAddress_v6 {wire : ℕ} (h : wire < 2 ^ 16) (raw : Octets 16) (txid : TransactionId)
    (xor : Bool) :
    decodeAddress (0 :: familyIpv6 :: (toBeBytes 2 wire ++ raw.toList)) txid xor =
      .ok { ip := .v6 (if xor then xorOctets (mask16 txid) raw else raw),
            port := if xor then maskPort wire else wire } := by
  simp only [decodeAddress, length_cons, length_append, length_toBeBytes,
    raw.toList_length, drop_succ_cons, drop_zero, take_port h, drop_port]
  rfl

theorem decodeAddress_encodeAddress {addr : SocketAddr} (h : addr.port < 2 ^ 16)
    (txid : TransactionId) (xor : Bool) :
    decodeAddress (encodeAddress addr txid xor) txid xor = .ok addr := by
  obtain ⟨ip, port⟩ := addr
  have hwire : (if xor then maskPort port else port) < 2 ^ 16 := by
    split
    · exact maskPort_lt h
    · exact h
  cases ip with
  | v4 octets =>
      rw [encodeAddress, decodeAddress_v4 hwire]
      cases xor <;> simp
  | v6 octets =>
      rw [encodeAddress, decodeAddress_v6 hwire]
      cases xor <;> simp

theorem length_encodeAddress_lt (addr : SocketAddr) (txid : TransactionId) (xor : Bool) :
    (encodeAddress addr txid xor).length < 2 ^ 16 := by
  unfold encodeAddress
  cases addr.ip <;> simp

/-- An attribute that fits in its length field and reads back as it is. -/
structure Attribute.Canonical (txid : TransactionId) (a : Attribute) : Prop where
  length_lt : (a.encodeValue txid).length < 2 ^ 16
  decode : decodeAttribute a.kind (a.encodeValue txid) txid = .ok a

namespace Attribute.Canonical

variable {txid : TransactionId} {addr : SocketAddr}

theorem xorMappedAddress (h : addr.port < 2 ^ 16) :
    (Attribute.xorMappedAddress addr).Canonical txid where
  length_lt := length_encodeAddress_lt addr txid true
  decode := by
    change (decodeAddress _ txid true).map Attribute.xorMappedAddress = _
    rw [encodeValue, decodeAddress_encodeAddress h]
    rfl

theorem xorPeerAddress (h : addr.port < 2 ^ 16) :
    (Attribute.xorPeerAddress addr).Canonical txid where
  length_lt := length_encodeAddress_lt addr txid true
  decode := by
    change (decodeAddress _ txid true).map Attribute.xorPeerAddress = _
    rw [encodeValue, decodeAddress_encodeAddress h]
    rfl

theorem xorRelayedAddress (h : addr.port < 2 ^ 16) :
    (Attribute.xorRelayedAddress addr).Canonical txid where
  length_lt := length_encodeAddress_lt addr txid true
  decode := by
    change (decodeAddress _ txid true).map Attribute.xorRelayedAddress = _
    rw [encodeValue, decodeAddress_encodeAddress h]
    rfl

theorem username {name : Bytes} (h : name.length < 2 ^ 16) :
    (Attribute.username name).Canonical txid where
  length_lt := h
  decode := rfl

theorem data {payload : Bytes} (h : payload.length < 2 ^ 16) :
    (Attribute.data payload).Canonical txid where
  length_lt := h
  decode := rfl

theorem software {text : String} (h : (utf8 text).length < 2 ^ 16) :
    (Attribute.software text).Canonical txid where
  length_lt := h
  decode := congrArg (Except.ok ∘ Attribute.software) (fromUtf8Lossy_utf8 text)

theorem realm {text : String} (h : (utf8 text).length < 2 ^ 16) :
    (Attribute.realm text).Canonical txid where
  length_lt := h
  decode := congrArg (Except.ok ∘ Attribute.realm) (fromUtf8Lossy_utf8 text)

theorem nonce {text : String} (h : (utf8 text).length < 2 ^ 16) :
    (Attribute.nonce text).Canonical txid where
  length_lt := h
  decode := congrArg (Except.ok ∘ Attribute.nonce) (fromUtf8Lossy_utf8 text)

theorem messageIntegrity (digest : Octets 20) :
    (Attribute.messageIntegrity digest).Canonical txid where
  length_lt := by
    rw [encodeValue, digest.toList_length]
    decide
  decode := by
    have hread : Block.zeroPadded 20 (digest.toList.take 20) = digest := by
      rw [take_of_length_le digest.toList_length.le]
      exact Block.toList_inj.mp (Block.toList_zeroPadded_of_length digest.toList_length)
    change (if digest.toList.length < 20 then _ else
      Except.ok (Attribute.messageIntegrity (Block.zeroPadded 20 (digest.toList.take 20)))) = _
    rw [digest.toList_length, if_neg (Nat.lt_irrefl 20), hread]

theorem decodeAttribute_errorCode (value : Bytes) :
    decodeAttribute Attr.errorCode value txid =
      if value.length < 4 then .error (.malformed "ERROR-CODE shorter than 4 bytes")
      else .ok (.errorCode (UInt16.ofNat ((value.getD 2 0 &&& 0x07).toNat * 100 +
        (value.getD 3 0).toNat)) (fromUtf8Lossy (value.drop 4))) := rfl

theorem errorCode {code : UInt16} {reason : String} (hcode : code < 800)
    (h : (utf8 reason).length < 2 ^ 16 - 4) :
    (Attribute.errorCode code reason).Canonical txid where
  length_lt := by
    rw [encodeValue, length_append]
    simp only [length_cons, length_nil]
    omega
  decode := by
    have hlt : code.toNat < 800 := hcode
    have hmask : (0x07 : UInt8).toNat = 2 ^ 3 - 1 := rfl
    have hhundreds : (UInt8.ofNat (code.toNat / 100) &&& 0x07 &&& 0x07).toNat = code.toNat / 100 := by
      rw [UInt8.toNat_and, UInt8.toNat_and, UInt8.toNat_ofNat', hmask,
        Nat.and_two_pow_sub_one_eq_mod, Nat.and_two_pow_sub_one_eq_mod]
      omega
    have hread : UInt16.ofNat ((UInt8.ofNat (code.toNat / 100) &&& 0x07 &&& 0x07).toNat * 100 +
        (UInt8.ofNat (code.toNat % 100)).toNat) = code := by
      rw [hhundreds, UInt8.toNat_ofNat', Nat.mod_eq_of_lt (by omega : code.toNat % 100 < 2 ^ 8),
        Nat.div_add_mod', UInt16.ofNat_toNat]
    have hlong : ¬ (encodeValue txid (.errorCode code reason)).length < 4 := by
      rw [encodeValue, length_append]
      simp
    rw [kind, decodeAttribute_errorCode, if_neg hlong]
    change Except.ok (Attribute.errorCode (UInt16.ofNat ((UInt8.ofNat (code.toNat / 100) &&& 0x07 &&&
      0x07).toNat * 100 + (UInt8.ofNat (code.toNat % 100)).toNat)) (fromUtf8Lossy (utf8 reason))) = _
    rw [fromUtf8Lossy_utf8, hread]

theorem useCandidate : Attribute.useCandidate.Canonical txid where
  length_lt := by simp [encodeValue]
  decode := rfl

theorem dontFragment : Attribute.dontFragment.Canonical txid where
  length_lt := by simp [encodeValue]
  decode := rfl

theorem requestedTransport (proto : UInt8) :
    (Attribute.requestedTransport proto).Canonical txid where
  length_lt := by simp [encodeValue]
  decode := rfl

theorem readU32_toBeBytes (n : UInt32) (what : String) :
    readU32 (toBeBytes 4 n.toNat) what = .ok n := by
  rw [readU32, length_toBeBytes, if_neg (Nat.lt_irrefl 4),
    take_of_length_le (length_toBeBytes 4 n.toNat).le, fromBeBytes_uint32]

theorem readU64_toBeBytes (n : UInt64) : readU64 (toBeBytes 8 n.toNat) = .ok n := by
  rw [readU64, length_toBeBytes, if_neg (Nat.lt_irrefl 8),
    take_of_length_le (length_toBeBytes 8 n.toNat).le, fromBeBytes_uint64]

theorem priority (value : UInt32) : (Attribute.priority value).Canonical txid where
  length_lt := by
    rw [encodeValue, length_toBeBytes]
    decide
  decode := by
    change (readU32 (toBeBytes 4 value.toNat) "PRIORITY shorter than 4 bytes").map Attribute.priority = _
    rw [readU32_toBeBytes]
    rfl

theorem lifetime (secs : UInt32) : (Attribute.lifetime secs).Canonical txid where
  length_lt := by
    rw [encodeValue, length_toBeBytes]
    decide
  decode := by
    change (readU32 (toBeBytes 4 secs.toNat) (if toBeBytes 4 secs.toNat = [] then "LIFETIME empty"
      else "LIFETIME short")).map Attribute.lifetime = _
    rw [readU32_toBeBytes]
    rfl

theorem fingerprint (crc : UInt32) : (Attribute.fingerprint crc).Canonical txid where
  length_lt := by
    rw [encodeValue, length_toBeBytes]
    decide
  decode := by
    change (readU32 (toBeBytes 4 crc.toNat) "FINGERPRINT shorter than 4 bytes").map
      Attribute.fingerprint = _
    rw [readU32_toBeBytes]
    rfl

theorem iceControlled (tie : UInt64) : (Attribute.iceControlled tie).Canonical txid where
  length_lt := by
    rw [encodeValue, length_toBeBytes]
    decide
  decode := congrArg (Except.map Attribute.iceControlled) (readU64_toBeBytes tie)

theorem iceControlling (tie : UInt64) : (Attribute.iceControlling tie).Canonical txid where
  length_lt := by
    rw [encodeValue, length_toBeBytes]
    decide
  decode := congrArg (Except.map Attribute.iceControlling) (readU64_toBeBytes tie)

theorem channelNumber (channel : UInt16) : (Attribute.channelNumber channel).Canonical txid where
  length_lt := by
    rw [encodeValue, length_append, length_toBeBytes]
    decide
  decode := by
    have hread : (toBeBytes 2 channel.toNat ++ [0, 0]).take 2 = toBeBytes 2 channel.toNat :=
      take_left' (length_toBeBytes 2 _)
    change (if (toBeBytes 2 channel.toNat ++ [0, 0]).length < 2 then
        Except.error (StunError.malformed "CHANNEL-NUMBER short")
      else Except.ok (Attribute.channelNumber (UInt16.ofNat (fromBeBytes
        ((toBeBytes 2 channel.toNat ++ [0, 0]).take 2))))) = _
    rw [length_append, length_toBeBytes, if_neg (by simp), hread, fromBeBytes_uint16]

end Attribute.Canonical

/-! ### TLVs -/

theorem le_paddedLen (len : ℕ) : len ≤ paddedLen len := by
  unfold paddedLen
  omega

@[simp] theorem length_encodeTlv (kind : UInt16) (value : Bytes) :
    (encodeTlv kind value).length = 4 + paddedLen value.length := by
  have h := le_paddedLen value.length
  simp only [encodeTlv, length_append, length_toBeBytes, length_replicate]
  omega

theorem encodeTlv_append (kind : UInt16) (value rest : Bytes) :
    encodeTlv kind value ++ rest = toBeBytes 2 kind.toNat ++ (toBeBytes 2 value.length ++
      (value ++ (replicate (paddedLen value.length - value.length) 0 ++ rest))) := by
  rw [encodeTlv, append_assoc, append_assoc, append_assoc]

section Front

variable (kind : UInt16) {value : Bytes} (rest : Bytes)

theorem take_kind : UInt16.ofNat (fromBeBytes ((encodeTlv kind value ++ rest).take 2)) = kind := by
  rw [encodeTlv_append, take_left' (length_toBeBytes 2 _), fromBeBytes_uint16]

theorem take_length (h : value.length < 2 ^ 16) :
    fromBeBytes (((encodeTlv kind value ++ rest).drop 2).take 2) = value.length := by
  rw [encodeTlv_append, drop_left' (length_toBeBytes 2 _),
    take_left' (length_toBeBytes 2 _), fromBeBytes_toBeBytes h]

theorem take_value : ((encodeTlv kind value ++ rest).drop 4).take value.length = value := by
  rw [encodeTlv_append, show (4 : ℕ) = 2 + 2 from rfl, ← drop_drop,
    drop_left' (length_toBeBytes 2 _), drop_left' (length_toBeBytes 2 _), take_left]

theorem drop_tlv : (encodeTlv kind value ++ rest).drop (4 + paddedLen value.length) = rest :=
  drop_left' (length_encodeTlv kind value)

end Front

theorem parseAttributes_encodeInto {txid : TransactionId} {a : Attribute} (ha : a.Canonical txid)
    (fuel : ℕ) (rest : Bytes) :
    parseAttributes txid (fuel + 1) (a.encodeInto txid ++ rest) =
      (parseAttributes txid fuel rest).map (a :: ·) := by
  have hlen : (a.encodeInto txid ++ rest).length = 4 + paddedLen (a.encodeValue txid).length +
      rest.length := by
    rw [length_append, Attribute.encodeInto, length_encodeTlv]
  have hne : a.encodeInto txid ++ rest ≠ [] := by
    intro h
    rw [h] at hlen
    simp at hlen
    omega
  have hpad := le_paddedLen (a.encodeValue txid).length
  rw [parseAttributes, if_neg hne, if_neg (by omega)]
  simp only [Attribute.encodeInto, take_kind, take_length _ _ ha.length_lt, take_value, drop_tlv,
    ha.decode]
  rw [Attribute.encodeInto] at hlen
  rw [if_neg (by omega), if_neg (by omega)]

variable {attributes : List Attribute}

theorem parseAttributes_encode {txid : TransactionId} (h : ∀ a ∈ attributes, a.Canonical txid)
    {fuel : ℕ} (hfuel : attributes.length ≤ fuel) :
    parseAttributes txid fuel (encodeAttributes txid attributes) = .ok attributes := by
  induction attributes generalizing fuel with
  | nil => cases fuel <;> rfl
  | cons a attributes ih =>
      obtain ⟨fuel, rfl⟩ : ∃ n, fuel = n + 1 := Nat.exists_eq_add_one_of_ne_zero (by
        rw [length_cons] at hfuel
        omega)
      rw [encodeAttributes, flatMap_cons, parseAttributes_encodeInto (h a (by simp)),
        ← encodeAttributes, ih (fun b hb => h b (by simp [hb])) (by simpa using hfuel)]
      rfl

@[simp] theorem length_writeHeader (typ : MessageType) (txid : TransactionId) (n : ℕ) :
    (writeHeader typ txid n).length = headerLen := by
  simp only [writeHeader, length_append, length_toBeBytes, txid.toList_length]
  rfl

theorem writeHeader_append (typ : MessageType) (txid : TransactionId) (n : ℕ) (rest : Bytes) :
    writeHeader typ txid n ++ rest = toBeBytes 2 typ.value.toNat ++ (toBeBytes 2 n ++
      (toBeBytes 4 magicCookie ++ (txid.toList ++ rest))) := by
  rw [writeHeader, append_assoc, append_assoc, append_assoc]

def declaredLength (buf : Bytes) : ℕ := fromBeBytes ((buf.drop 2).take 2)

theorem declaredLength_writeHeader_mod (typ : MessageType) (txid : TransactionId) (n : ℕ)
    (rest : Bytes) : declaredLength (writeHeader typ txid n ++ rest) = n % 2 ^ 16 := by
  rw [declaredLength, writeHeader_append, drop_left' (length_toBeBytes 2 _),
    take_left' (length_toBeBytes 2 _), fromBeBytes_toBeBytes_mod,
    show 256 ^ 2 = 2 ^ 16 from rfl]

variable {typ : MessageType}

theorem declaredLength_writeHeader {txid : TransactionId} (h : n < 2 ^ 16) (rest : Bytes) :
    declaredLength (writeHeader typ txid n ++ rest) = n := by
  rw [declaredLength_writeHeader_mod, Nat.mod_eq_of_lt h]

theorem parse_writeHeader {txid : TransactionId} {body : Bytes} (hlt : body.length < 2 ^ 16)
    (hmod : body.length % 4 = 0) (rest : Bytes) :
    parse (writeHeader typ txid body.length ++ (body ++ rest)) =
      (parseAttributes txid body.length body).map fun attributes =>
        { typ := typ, txid := txid, attributes := attributes } := by
  have hdeclared : declaredLength (writeHeader typ txid body.length ++ (body ++ rest)) =
      body.length := declaredLength_writeHeader hlt _
  have hlen : (writeHeader typ txid body.length ++ (body ++ rest)).length =
      headerLen + (body.length + rest.length) := by
    rw [length_append, length_writeHeader, length_append]
  have hbody : (writeHeader typ txid body.length ++ (body ++ rest)).drop headerLen = body ++ rest :=
    drop_left' (length_writeHeader typ txid body.length)
  have htyp : (writeHeader typ txid body.length ++ (body ++ rest)).take 2 =
      toBeBytes 2 typ.value.toNat := by
    rw [writeHeader_append, take_left' (length_toBeBytes 2 _)]
  have hcookie : ((writeHeader typ txid body.length ++ (body ++ rest)).drop 4).take 4 =
      toBeBytes 4 magicCookie := by
    rw [writeHeader_append, show (4 : ℕ) = 2 + 2 from rfl, ← drop_drop,
      drop_left' (length_toBeBytes 2 _), drop_left' (length_toBeBytes 2 _),
      take_left' (length_toBeBytes _ _)]
  have htxid : ((writeHeader typ txid body.length ++ (body ++ rest)).drop 8).take 12 =
      txid.toList := by
    rw [writeHeader_append, show (8 : ℕ) = 2 + (2 + 4) from rfl, ← drop_drop, ← drop_drop,
      drop_left' (length_toBeBytes 2 _), drop_left' (length_toBeBytes 2 _),
      drop_left' (length_toBeBytes 4 _), take_left' txid.toList_length]
  rw [declaredLength] at hdeclared
  simp only [parse, hlen, hdeclared, hbody, htyp, hcookie, htxid, fromBeBytes_uint16]
  rw [if_neg (by omega), if_neg (by omega), if_neg (by decide), if_neg (by omega),
    take_left' rfl, Block.toList_inj.mp (Block.toList_zeroPadded_of_length txid.toList_length)]

theorem length_encodeAttributes_mod (txid : TransactionId) (attributes : List Attribute) :
    (encodeAttributes txid attributes).length % 4 = 0 := by
  induction attributes with
  | nil => rfl
  | cons a attributes ih =>
      rw [encodeAttributes] at ih ⊢
      rw [flatMap_cons, length_append, Attribute.encodeInto, length_encodeTlv, paddedLen]
      omega

theorem length_le_encodeAttributes (txid : TransactionId) (attributes : List Attribute) :
    4 * attributes.length ≤ (encodeAttributes txid attributes).length := by
  induction attributes with
  | nil => exact Nat.le_refl 0
  | cons a attributes ih =>
      rw [encodeAttributes] at ih ⊢
      rw [flatMap_cons, length_append, Attribute.encodeInto, length_encodeTlv,
        length_cons]
      omega

/-- A message whose attributes read back and fit in the length field together. -/
structure Message.Encodable (m : Message) : Prop where
  canonical : ∀ a ∈ m.attributes, a.Canonical m.txid
  length_lt : (encodeAttributes m.txid m.attributes).length < 2 ^ 16

variable {m : Message}

theorem parse_encode (h : m.Encodable) (rest : Bytes) : parse (m.encode ++ rest) = .ok m := by
  have hmod := length_encodeAttributes_mod m.txid m.attributes
  have hle := length_le_encodeAttributes m.txid m.attributes
  rw [Message.encode, append_assoc, parse_writeHeader h.length_lt hmod,
    parseAttributes_encode h.canonical (by omega)]
  rfl

/-! ### What decoding gives -/

section Kinds

variable {a b : Attribute} {k : UInt16}

theorem kind_ok (hb : b.kind = k) (h : Except.ok b = (.ok a : Except StunError Attribute)) :
    a.kind = k := by
  rw [← Except.ok.inj h, hb]

theorem kind_map {β : Type} {r : Except StunError β} {f : β → Attribute}
    (hf : ∀ x, (f x).kind = k) (h : r.map f = .ok a) : a.kind = k := by
  cases r with
  | error e => cases h
  | ok x => exact kind_ok (hf x) h

theorem kind_guard {p : Prop} [Decidable p] {e : StunError} (hb : b.kind = k)
    (h : (if p then .error e else .ok b) = (.ok a : Except StunError Attribute)) : a.kind = k := by
  split at h
  · cases h
  · exact kind_ok hb h

theorem kind_ite {kind : UInt16} {x y : Except StunError Attribute} (hx : x = .ok a → a.kind = k)
    (hy : y = .ok a → a.kind = kind) (h : (if kind = k then x else y) = .ok a) :
    a.kind = kind := by
  split at h
  · rename_i heq
    rw [hx h, heq]
  · exact hy h

theorem kind_of_decodeAttribute {kind : UInt16} {value : Bytes} {txid : TransactionId} :
    decodeAttribute kind value txid = .ok a → a.kind = kind := by
  unfold decodeAttribute
  refine kind_ite (kind_map fun _ => rfl) ?_
  refine kind_ite (kind_map fun _ => rfl) ?_
  refine kind_ite (kind_ok rfl) ?_
  refine kind_ite (kind_guard rfl) ?_
  refine kind_ite (kind_guard rfl) ?_
  refine kind_ite (kind_map fun _ => rfl) ?_
  refine kind_ite (kind_ok rfl) ?_
  refine kind_ite (kind_map fun _ => rfl) ?_
  refine kind_ite (kind_map fun _ => rfl) ?_
  refine kind_ite (kind_ok rfl) ?_
  refine kind_ite (kind_map fun _ => rfl) ?_
  refine kind_ite (kind_map fun _ => rfl) ?_
  refine kind_ite (kind_ok rfl) ?_
  refine kind_ite (kind_ok rfl) ?_
  refine kind_ite (kind_ok rfl) ?_
  refine kind_ite (fun h => ?_) ?_
  · split at h
    · cases h
    · exact kind_ok rfl h
  refine kind_ite (kind_map fun _ => rfl) ?_
  refine kind_ite (kind_guard rfl) ?_
  refine kind_ite (kind_guard rfl) ?_
  refine kind_ite (kind_ok rfl) ?_
  refine kind_ite (kind_map fun _ => rfl) ?_
  exact kind_ok rfl

end Kinds

theorem eq_of_decodeAttribute_data {kind : UInt16} {value payload : Bytes} {txid : TransactionId}
    (h : decodeAttribute kind value txid = .ok (.data payload)) : payload = value := by
  have hkind : Attr.data = kind := kind_of_decodeAttribute h
  rw [← hkind] at h
  cases h
  rfl

theorem length_data_le {txid : TransactionId} {fuel : ℕ} {rest payload : Bytes}
    (h : parseAttributes txid fuel rest = .ok attributes) (hmem : .data payload ∈ attributes) :
    4 + payload.length ≤ rest.length := by
  induction fuel generalizing rest attributes with
  | zero =>
      cases h
      cases hmem
  | succ fuel ih =>
      rw [parseAttributes] at h
      split at h
      · cases h
        cases hmem
      split at h
      · cases h
      dsimp only at h
      split at h
      · cases h
      rename_i hvalue
      split at h
      · cases h
      rename_i a ha
      split at h
      · cases h
      generalize hnext : parseAttributes txid fuel _ = next at h
      cases next with
      | error e => cases h
      | ok attributes' =>
          cases h
          rcases mem_cons.mp hmem with rfl | hmem'
          · rw [eq_of_decodeAttribute_data ha, length_take, length_drop]
            omega
          · have hrest := ih hnext hmem'
            rw [length_drop] at hrest
            omega

theorem parse_eq_ok {buf : Bytes} (h : parse buf = .ok m) :
    headerLen ≤ buf.length ∧ declaredLength buf ≤ buf.length - headerLen ∧
      m.typ = ⟨UInt16.ofNat (fromBeBytes (buf.take 2))⟩ ∧
      m.txid = Block.zeroPadded 12 ((buf.drop 8).take 12) ∧
      parseAttributes m.txid (((buf.drop headerLen).take (declaredLength buf)).length)
        ((buf.drop headerLen).take (declaredLength buf)) = .ok m.attributes := by
  unfold declaredLength
  simp only [parse] at h
  split at h
  · cases h
  split at h
  · cases h
  split at h
  · cases h
  split at h
  · cases h
  rename_i hshort _ _ hlong
  generalize hattrs : parseAttributes _ _ _ = result at h
  cases result with
  | error e => cases h
  | ok attributes =>
      cases h
      exact ⟨Nat.le_of_not_lt hshort, Nat.le_of_not_lt hlong, rfl, rfl, hattrs⟩

/-- An attribute that reads back as it is, if it fits in its length field. -/
def Attribute.Readable (txid : TransactionId) (a : Attribute) : Prop :=
  (a.encodeValue txid).length < 2 ^ 16 → a.Canonical txid

theorem length_encodeValue_le {txid : TransactionId} {a : Attribute} (ha : a ∈ attributes) :
    (a.encodeValue txid).length ≤ (encodeAttributes txid attributes).length := by
  induction attributes with
  | nil => cases ha
  | cons b attributes ih =>
      have hpad := le_paddedLen (b.encodeValue txid).length
      have hcons : (encodeAttributes txid (b :: attributes)).length =
          4 + paddedLen (b.encodeValue txid).length + (encodeAttributes txid attributes).length := by
        rw [encodeAttributes, flatMap_cons, length_append, Attribute.encodeInto,
          length_encodeTlv, ← encodeAttributes]
      rcases mem_cons.mp ha with rfl | hmem
      · omega
      · have := ih hmem
        omega

theorem Message.length_encode (m : Message) :
    m.encode.length = headerLen + (encodeAttributes m.txid m.attributes).length := by
  rw [Message.encode, length_append, length_writeHeader]

theorem Message.encodable_of_length (h : ∀ a ∈ m.attributes, a.Readable m.txid)
    (hlen : m.encode.length < 2 ^ 16) : m.Encodable := by
  rw [Message.length_encode] at hlen
  constructor
  · intro a ha
    exact h a ha (by
      have := @length_encodeValue_le m.attributes m.txid _ ha
      omega)
  · omega

theorem length_data_le_declared {buf payload : Bytes} (h : parse buf = .ok m)
    (hdata : m.data = some payload) : 4 + payload.length ≤ declaredLength buf := by
  have hmem : .data payload ∈ m.attributes := by
    unfold Message.data at hdata
    split at hdata
    · rename_i hget
      cases hdata
      exact mem_of_find?_eq_some hget
    · cases hdata
  calc
    4 + payload.length ≤ ((buf.drop headerLen).take (declaredLength buf)).length :=
      length_data_le (parse_eq_ok h).2.2.2.2 hmem
    _ ≤ declaredLength buf := length_take_le _ _

theorem length_le_of_parse_take {msg : Message} {k : ℕ} (hlen : m.encode.length < 2 ^ 16)
    (hk : headerLen ≤ k) (h : parse (m.encode.take k) = .ok msg) : m.encode.length ≤ k := by
  have hheader := length_writeHeader m.typ m.txid (encodeAttributes m.txid m.attributes).length
  rw [Message.length_encode] at hlen ⊢
  have htake : m.encode.take k =
      writeHeader m.typ m.txid (encodeAttributes m.txid m.attributes).length ++
        (encodeAttributes m.txid m.attributes).take (k - headerLen) := by
    rw [Message.encode, take_append, hheader, take_of_length_le (hheader.le.trans hk)]
  have hdeclared := (parse_eq_ok h).2.1
  rw [htake, declaredLength_writeHeader (by omega), length_append, hheader,
    Nat.add_sub_cancel_left, length_take] at hdeclared
  omega

/-! ### Looking attributes up -/

@[simp] theorem Message.get_push (m : Message) (a : Attribute) (kind : UInt16) :
    (m.push a).get kind = (m.get kind).or (if a.kind = kind then some a else none) := by
  rw [get, push, find?_append]
  by_cases h : a.kind = kind <;> simp [get, h]

theorem typ_of_parse {txid : TransactionId} {rest : Bytes}
    (h : parse (writeHeader typ txid n ++ rest) = .ok m) : m.typ = typ := by
  have htyp := (parse_eq_ok h).2.2.1
  rwa [writeHeader_append, take_left' (length_toBeBytes 2 _), fromBeBytes_uint16] at htyp

theorem txid_of_parse {txid : TransactionId} {rest : Bytes}
    (h : parse (writeHeader typ txid n ++ rest) = .ok m) : m.txid = txid := by
  have htxid := (parse_eq_ok h).2.2.2.1
  rw [writeHeader_append, show (8 : ℕ) = 2 + (2 + 4) from rfl, ← drop_drop, ← drop_drop,
    drop_left' (length_toBeBytes 2 _), drop_left' (length_toBeBytes 2 _),
    drop_left' (length_toBeBytes 4 _), take_left' txid.toList_length,
    Block.toList_inj.mp (Block.toList_zeroPadded_of_length txid.toList_length)] at htxid
  exact htxid

end Stun

end Vantablack.Net
