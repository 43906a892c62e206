import Vantablack.Net.Stun

/-!
`MESSAGE-INTEGRITY` and `FINGERPRINT` of `net/stun.rs`: how a message is sealed under a key, and
how a datagram is verified by its raw bytes. HMAC-SHA1 and MD5 are parameters.
-/

namespace Vantablack.Net.Stun

open Lib Layers Receive List

/-- The digests the codec takes from other crates. -/
structure Digests where
  hmacSha1 (key msg : Bytes) : Octets 20
  md5 (msg : Bytes) : Octets 16

def longTermKey (d : Digests) (username realm password : String) : Octets 16 :=
  d.md5 (utf8 username ++ utf8 ":" ++ utf8 realm ++ utf8 ":" ++ utf8 password)

def fingerprintXor : UInt32 := 0x5354554E

def crcBit (crc : UInt32) : UInt32 :=
  if crc &&& 1 = 1 then crc >>> 1 ^^^ 0xEDB88320 else crc >>> 1

/-- CRC-32/ISO-HDLC, bit by bit. -/
def crc32Ieee (data : Bytes) : UInt32 :=
  (data.foldl (fun crc byte => crcBit^[8] (crc ^^^ UInt32.ofNat byte.toNat)) 0xFFFFFFFF) ^^^ 0xFFFFFFFF

def integritySize : ℕ := 24

def fingerprintSize : ℕ := 8

/-- Digests that are easy to run: the first bytes of the message and of the key. -/
def Digests.front : Digests where
  hmacSha1 key msg := Block.zeroPadded 20 (msg.take 10 ++ key.take 10)
  md5 msg := Block.zeroPadded 16 (msg.take 16)

def Attribute.isDigest : Attribute → Bool
  | .messageIntegrity _ => true
  | .fingerprint _ => true
  | _ => false

/-- An attribute that is sealed and does not pass for the integrity attribute. -/
def Attribute.isPlain (a : Attribute) : Bool :=
  !a.isDigest && a.kind != Attr.messageIntegrity

namespace Message

variable (d : Digests)

def stripped (m : Message) : List Attribute := m.attributes.filter fun a => !a.isDigest

/-- The digest over the message up to the integrity attribute, with a length that counts it. -/
def integrityTag (m : Message) (key : Bytes) : Octets 20 :=
  let attrs := encodeAttributes m.txid m.stripped
  d.hmacSha1 key (writeHeader m.typ m.txid (attrs.length + integritySize) ++ attrs)

/-- The CRC over everything up to the fingerprint, with a length that counts it. -/
def fingerprintCrc (m : Message) (key : Bytes) : UInt32 :=
  let attrs := encodeAttributes m.txid (m.stripped ++ [.messageIntegrity (m.integrityTag d key)])
  crc32Ieee (writeHeader m.typ m.txid (attrs.length + fingerprintSize) ++ attrs) ^^^ fingerprintXor

/-- The message with its two digests behind the attributes. -/
def sealed (m : Message) (key : Bytes) : Message :=
  { m with attributes := m.stripped ++
      [.messageIntegrity (m.integrityTag d key), .fingerprint (m.fingerprintCrc d key)] }

/-- HMAC takes a key of any length, so this never fails. -/
def encodeWithIntegrity (m : Message) (key : Bytes) : Bytes := (m.sealed d key).encode

end Message

/-- The loop of `find_raw_attribute`. -/
def scanAttributes (buf : Bytes) (want : UInt16) (stop : ℕ) : ℕ → ℕ → Option (ℕ × ℕ)
  | 0, _ => none
  | fuel + 1, pos =>
      if pos + 4 ≤ stop then
        let kind := UInt16.ofNat (fromBeBytes ((buf.drop pos).take 2))
        let len := fromBeBytes (((buf.drop pos).drop 2).take 2)
        if kind = want then some (pos, len)
        else scanAttributes buf want stop fuel (pos + (4 + paddedLen len))
      else none

/-- Offset and value length of the first attribute of a kind. -/
def findRawAttribute (buf : Bytes) (want : UInt16) : Option (ℕ × ℕ) :=
  if buf.length < 4 then none
  else
    scanAttributes buf want (min (headerLen + declaredLength buf) buf.length) buf.length headerLen

/-- `verify_integrity`: the length the digest covers is rebuilt from the attribute's position. -/
def verifyIntegrity (d : Digests) (buf key : Bytes) : Except StunError Unit :=
  match findRawAttribute buf Attr.messageIntegrity with
  | none => .error .missingIntegrity
  | some (off, _) =>
      if off + integritySize > buf.length ∨ off < headerLen then .error .badIntegrity
      else
        let coveredLen := off - headerLen + integritySize
        let expected := d.hmacSha1 key
          (buf.take 2 ++ (toBeBytes 2 coveredLen ++ (buf.drop 4).take (off - 4)))
        if expected.toList = (buf.drop (off + 4)).take 20 then .ok () else .error .badIntegrity

/-! ### What was sealed verifies -/

theorem scanAttributes_skip {txid : TransactionId} {want : UInt16} {buf rest : Bytes} {stop : ℕ}
    {attributes : List Attribute} (hkind : ∀ a ∈ attributes, a.kind ≠ want)
    (hlen : ∀ a ∈ attributes, (a.encodeValue txid).length < 2 ^ 16) {pos : ℕ}
    (hpos : RestAt buf pos (encodeAttributes txid attributes ++ rest))
    (hstop : pos + (encodeAttributes txid attributes).length ≤ stop) (fuel : ℕ) :
    scanAttributes buf want stop (fuel + attributes.length) pos =
      scanAttributes buf want stop fuel (pos + (encodeAttributes txid attributes).length) := by
  induction attributes generalizing pos with
  | nil => rfl
  | cons a attributes ih =>
      have hcons : encodeAttributes txid (a :: attributes) =
          a.encodeInto txid ++ encodeAttributes txid attributes := flatMap_cons ..
      rw [hcons, append_assoc] at hpos
      rw [hcons, length_append, Attribute.encodeInto, length_encodeTlv] at hstop
      have hnext := hpos.skip (length_encodeTlv a.kind (a.encodeValue txid))
      have hrest := ih (fun b hb => hkind b (mem_cons_of_mem _ hb))
        (fun b hb => hlen b (mem_cons_of_mem _ hb)) hnext (by omega)
      rw [length_cons, ← Nat.add_assoc, scanAttributes, if_pos (by omega), hpos.2]
      simp only [Attribute.encodeInto, take_kind, take_length _ _ (hlen a mem_cons_self)]
      rw [if_neg (hkind a mem_cons_self), hrest, hcons, length_append,
        Attribute.encodeInto, length_encodeTlv, Nat.add_assoc]

theorem scanAttributes_found {want : UInt16} {buf value rest : Bytes} {stop pos : ℕ}
    (hlen : value.length < 2 ^ 16) (hpos : RestAt buf pos (encodeTlv want value ++ rest))
    (hstop : pos + 4 ≤ stop) (fuel : ℕ) :
    scanAttributes buf want stop (fuel + 1) pos = some (pos, value.length) := by
  rw [scanAttributes, if_pos hstop, hpos.2]
  simp only [take_kind, take_length _ _ hlen, if_true]

theorem findRawAttribute_of_layout {typ : MessageType} {txid : TransactionId} {want : UInt16}
    {attributes : List Attribute} {value rest : Bytes} {n : ℕ}
    (hkind : ∀ a ∈ attributes, a.kind ≠ want)
    (hlen : ∀ a ∈ attributes, (a.encodeValue txid).length < 2 ^ 16) (hvalue : value.length < 2 ^ 16)
    (hlt : n < 2 ^ 16) (hn : (encodeAttributes txid attributes).length + 4 ≤ n) :
    findRawAttribute (writeHeader typ txid n ++
        (encodeAttributes txid attributes ++ (encodeTlv want value ++ rest))) want =
      some (headerLen + (encodeAttributes txid attributes).length, value.length) := by
  have hcount := length_le_encodeAttributes txid attributes
  set attrs := encodeAttributes txid attributes with hattrs
  have hpos : RestAt (writeHeader typ txid n ++ (attrs ++ (encodeTlv want value ++ rest))) headerLen
      (attrs ++ (encodeTlv want value ++ rest)) := by
    have hstart := RestAt.start (writeHeader typ txid n ++ (attrs ++ (encodeTlv want value ++ rest)))
    have hskip := hstart.skip (length_writeHeader typ txid n)
    rwa [Nat.zero_add] at hskip
  have hdeclared : declaredLength (writeHeader typ txid n ++
      (attrs ++ (encodeTlv want value ++ rest))) = n := declaredLength_writeHeader hlt _
  set buf := writeHeader typ txid n ++ (attrs ++ (encodeTlv want value ++ rest)) with hbuf
  have hbound : headerLen + attrs.length + 4 ≤ buf.length := by
    rw [hbuf, length_append, length_writeHeader, length_append, length_append,
      length_encodeTlv]
    omega
  obtain ⟨fuel, hfuel⟩ : ∃ fuel, buf.length = fuel + 1 + attributes.length :=
    ⟨buf.length - 1 - attributes.length, by omega⟩
  have hscan := scanAttributes_skip hkind hlen hpos
    (show headerLen + attrs.length ≤ min (headerLen + n) buf.length by omega) (fuel + 1)
  rw [findRawAttribute, if_neg (by omega), hdeclared]
  nth_rewrite 2 [hfuel]
  rw [hscan, scanAttributes_found hvalue (hpos.skip rfl) (by omega)]

theorem value_of_layout (typ : MessageType) (txid : TransactionId) (n : ℕ) (want : UInt16)
    (attrs value rest : Bytes) :
    ((writeHeader typ txid n ++ (attrs ++ (encodeTlv want value ++ rest))).drop
        (headerLen + attrs.length + 4)).take value.length = value := by
  rw [Nat.add_assoc, ← drop_drop, drop_left' (length_writeHeader ..), ← drop_drop,
    drop_left, take_value]

namespace Message

variable (d : Digests)

/-- A message that can be sealed: its attributes are plain, and it fits in the length field with
its digests. -/
structure Sealable (m : Message) : Prop where
  canonical : ∀ a ∈ m.attributes, a.Canonical m.txid
  plain : ∀ a ∈ m.attributes, a.isPlain = true
  length_lt : (encodeAttributes m.txid m.attributes).length + 32 < 2 ^ 16

variable {m : Message}

theorem stripped_of_sealable (h : m.Sealable) : m.stripped = m.attributes := by
  apply filter_eq_self.mpr
  intro a ha
  exact (Bool.and_eq_true_iff.mp (h.plain a ha)).1

theorem kind_ne_of_sealable (h : m.Sealable) {a : Attribute} (ha : a ∈ m.attributes) :
    a.kind ≠ Attr.messageIntegrity :=
  bne_iff_ne.mp (Bool.and_eq_true_iff.mp (h.plain a ha)).2

theorem length_digests (txid : TransactionId) (digest : Octets 20) (crc : UInt32) :
    (encodeAttributes txid [.messageIntegrity digest, .fingerprint crc]).length = 32 := by
  simp [encodeAttributes, Attribute.encodeInto, Attribute.encodeValue, paddedLen]

theorem encodable_sealed (h : m.Sealable) (key : Bytes) : (m.sealed d key).Encodable := by
  constructor
  · intro a ha
    rw [sealed, stripped_of_sealable h] at ha
    rcases mem_append.mp ha with hmem | hmem
    · exact h.canonical a hmem
    · rcases mem_pair.mp hmem with rfl | rfl
      · exact .messageIntegrity _
      · exact .fingerprint _
  · rw [sealed, stripped_of_sealable h, encodeAttributes, flatMap_append, length_append,
      ← encodeAttributes, ← encodeAttributes, length_digests]
    exact h.length_lt

theorem parse_encodeWithIntegrity (h : m.Sealable) (key : Bytes) :
    parse (m.encodeWithIntegrity d key) = .ok (m.sealed d key) := by
  have hparse := parse_encode (encodable_sealed d h key) []
  rwa [append_nil] at hparse

theorem encodeWithIntegrity_eq (m : Message) (key : Bytes) :
    m.encodeWithIntegrity d key =
      writeHeader m.typ m.txid ((encodeAttributes m.txid m.stripped).length + 32) ++
        (encodeAttributes m.txid m.stripped ++
          (encodeTlv Attr.messageIntegrity (m.integrityTag d key).toList ++
            encodeTlv Attr.fingerprint (toBeBytes 4 (m.fingerprintCrc d key).toNat))) := by
  have hattrs : encodeAttributes m.txid (m.sealed d key).attributes =
      encodeAttributes m.txid m.stripped ++
        (encodeTlv Attr.messageIntegrity (m.integrityTag d key).toList ++
          encodeTlv Attr.fingerprint (toBeBytes 4 (m.fingerprintCrc d key).toNat)) := by
    rw [sealed, encodeAttributes, flatMap_append, flatMap_cons, flatMap_singleton]
    rfl
  rw [encodeWithIntegrity, encode]
  change writeHeader m.typ m.txid (encodeAttributes m.txid (m.sealed d key).attributes).length ++
    encodeAttributes m.txid (m.sealed d key).attributes = _
  rw [hattrs]
  simp [paddedLen]

theorem length_encodeWithIntegrity (hplain : ∀ a ∈ m.attributes, a.isPlain = true) (key : Bytes) :
    (m.encodeWithIntegrity d key).length =
      headerLen + ((encodeAttributes m.txid m.attributes).length + 32) := by
  have hstripped : m.stripped = m.attributes := by
    apply filter_eq_self.mpr
    intro a ha
    exact (Bool.and_eq_true_iff.mp (hplain a ha)).1
  rw [encodeWithIntegrity_eq, hstripped]
  simp [paddedLen]

theorem sealable_of_length (hread : ∀ a ∈ m.attributes, a.Readable m.txid)
    (hplain : ∀ a ∈ m.attributes, a.isPlain = true) {key : Bytes}
    (hlen : (m.encodeWithIntegrity d key).length < 2 ^ 16) : m.Sealable := by
  rw [length_encodeWithIntegrity d hplain] at hlen
  constructor
  · intro a ha
    have hvalue := @length_encodeValue_le m.attributes m.txid _ ha
    exact hread a ha (by omega)
  · exact hplain
  · omega

theorem get_sealed (h : m.Sealable) (key : Bytes) {kind : UInt16}
    (hkind : kind ≠ Attr.messageIntegrity) (hkind' : kind ≠ Attr.fingerprint) :
    (m.sealed d key).get kind = m.get kind := by
  rw [get, get, sealed, stripped_of_sealable h, find?_append]
  have hdigests : find? (fun a : Attribute => a.kind = kind)
      [.messageIntegrity (m.integrityTag d key), .fingerprint (m.fingerprintCrc d key)] = none := by
    rw [find?_eq_none]
    intro a ha
    rcases mem_pair.mp ha with rfl | rfl
    · exact Bool.not_eq_true _ ▸ decide_eq_false hkind.symm
    · exact Bool.not_eq_true _ ▸ decide_eq_false hkind'.symm
  rw [hdigests, Option.or_none]

theorem findRawAttribute_encodeWithIntegrity (h : m.Sealable) (key : Bytes) :
    findRawAttribute (m.encodeWithIntegrity d key) Attr.messageIntegrity =
      some (headerLen + (encodeAttributes m.txid m.attributes).length, 20) := by
  have hlt := h.length_lt
  rw [encodeWithIntegrity_eq, stripped_of_sealable h,
    findRawAttribute_of_layout (fun a ha => kind_ne_of_sealable h ha)
      (fun a ha => (h.canonical a ha).length_lt) (by simp) hlt (by omega),
    (m.integrityTag d key).toList_length]

theorem verifyIntegrity_encodeWithIntegrity (h : m.Sealable) (key : Bytes) :
    verifyIntegrity d (m.encodeWithIntegrity d key) key = .ok () := by
  have heq := encodeWithIntegrity_eq d m key
  have hfind := findRawAttribute_encodeWithIntegrity d h key
  have htag : m.integrityTag d key = d.hmacSha1 key (writeHeader m.typ m.txid
      ((encodeAttributes m.txid m.attributes).length + integritySize) ++
        encodeAttributes m.txid m.attributes) := by
    rw [integrityTag, stripped_of_sealable h]
  rw [stripped_of_sealable h] at heq
  set attrs := encodeAttributes m.txid m.attributes
  set buf := m.encodeWithIntegrity d key
  have hlen : buf.length = headerLen + (attrs.length + 32) := by
    rw [heq]
    simp [paddedLen]
  have htyp : buf.take 2 = toBeBytes 2 m.typ.value.toNat := by
    rw [heq, writeHeader_append, take_left' (length_toBeBytes 2 _)]
  have hcovered : (buf.drop 4).take (headerLen + attrs.length - 4) =
      toBeBytes 4 magicCookie ++ (m.txid.toList ++ attrs) := by
    rw [heq, writeHeader_append, show (4 : ℕ) = 2 + 2 from rfl, ← drop_drop,
      drop_left' (length_toBeBytes 2 _), drop_left' (length_toBeBytes 2 _),
      ← append_assoc m.txid.toList, ← append_assoc (toBeBytes _ _)]
    apply take_left'
    simp only [length_append, length_toBeBytes, m.txid.toList_length, headerLen]
    omega
  have hdigest : (buf.drop (headerLen + attrs.length + 4)).take 20 =
      (m.integrityTag d key).toList := by
    have hvalue := value_of_layout m.typ m.txid (attrs.length + 32) Attr.messageIntegrity attrs
      (m.integrityTag d key).toList
      (encodeTlv Attr.fingerprint (toBeBytes 4 (m.fingerprintCrc d key).toNat))
    rwa [← heq, (m.integrityTag d key).toList_length] at hvalue
  rw [verifyIntegrity, hfind]
  simp only
  rw [if_neg (by rw [hlen]; simp only [integritySize]; omega), htyp, hcovered, hdigest, htag,
    Nat.add_sub_cancel_left, writeHeader_append, if_pos rfl]

end Message

end Vantablack.Net.Stun
