import Vantablack.Net.Stun

/-!
`Message::parse` of `net/stun.rs` with every index and every range it reads. The outer `none` is the
panic of an index out of bounds, or a loop that does not end; no datagram leads to it.
-/

namespace Vantablack.Net.Stun

open Lib Layers Receive

/-- The big-endian number in `data[i..i + n]`. -/
def beAt (data : Bytes) (i n : ℕ) : Option ℕ := (sliceAt data i n).map fromBeBytes

def decodeAddressReading (value : Bytes) (txid : TransactionId) (xor : Bool) :
    Option (Except StunError SocketAddr) :=
  if value.length < 4 then some (.error (.malformed "address attribute shorter than 4 bytes"))
  else do
    let family ← value[1]?
    let wire ← beAt value 2 2
    let port := if xor then maskPort wire else wire
    if family = familyIpv4 then
      if value.length < 8 then some (.error (.malformed "IPv4 address attribute needs 8 bytes"))
      else do
        let raw ← blockAt value 4 4
        some (.ok { ip := .v4 (if xor then xorOctets mask4 raw else raw), port := port })
    else if family = familyIpv6 then
      if value.length < 20 then some (.error (.malformed "IPv6 address attribute needs 20 bytes"))
      else do
        let raw ← blockAt value 4 16
        some (.ok { ip := .v6 (if xor then xorOctets (mask16 txid) raw else raw), port := port })
    else some (.error (.unknownFamily family))

def readU64Reading (value : Bytes) : Option (Except StunError UInt64) :=
  if value.length < 8 then some (.error (.malformed "64-bit attribute shorter than 8 bytes"))
  else (beAt value 0 8).map fun n => .ok (UInt64.ofNat n)

def readU32Reading (value : Bytes) (what : String) : Option (Except StunError UInt32) :=
  if value.length < 4 then some (.error (.malformed what))
  else (beAt value 0 4).map fun n => .ok (UInt32.ofNat n)

def decodeAttributeReading (kind : UInt16) (value : Bytes) (txid : TransactionId) :
    Option (Except StunError Attribute) :=
  if kind = Attr.mappedAddress then
    (decodeAddressReading value txid false).map (·.map .mappedAddress)
  else if kind = Attr.xorMappedAddress then
    (decodeAddressReading value txid true).map (·.map .xorMappedAddress)
  else if kind = Attr.username then some (.ok (.username value))
  else if kind = Attr.messageIntegrity then
    if value.length < 20 then some (.error (.malformed "MESSAGE-INTEGRITY shorter than 20 bytes"))
    else (blockAt value 0 20).map fun digest => .ok (.messageIntegrity digest)
  else if kind = Attr.errorCode then
    if value.length < 4 then some (.error (.malformed "ERROR-CODE shorter than 4 bytes"))
    else do
      let hundreds ← value[2]?
      let number ← value[3]?
      let reason ← sliceAt value 4 (value.length - 4)
      some (.ok (.errorCode (UInt16.ofNat ((hundreds &&& 0x07).toNat * 100 + number.toNat))
        (fromUtf8Lossy reason)))
  else if kind = Attr.priority then
    (readU32Reading value "PRIORITY shorter than 4 bytes").map (·.map .priority)
  else if kind = Attr.useCandidate then some (.ok .useCandidate)
  else if kind = Attr.iceControlled then (readU64Reading value).map (·.map .iceControlled)
  else if kind = Attr.iceControlling then (readU64Reading value).map (·.map .iceControlling)
  else if kind = Attr.software then some (.ok (.software (fromUtf8Lossy value)))
  else if kind = Attr.xorPeerAddress then
    (decodeAddressReading value txid true).map (·.map .xorPeerAddress)
  else if kind = Attr.xorRelayedAddress then
    (decodeAddressReading value txid true).map (·.map .xorRelayedAddress)
  else if kind = Attr.data then some (.ok (.data value))
  else if kind = Attr.realm then some (.ok (.realm (fromUtf8Lossy value)))
  else if kind = Attr.nonce then some (.ok (.nonce (fromUtf8Lossy value)))
  else if kind = Attr.requestedTransport then
    if value = [] then some (.error (.malformed "REQUESTED-TRANSPORT shorter than 1 byte"))
    else value[0]?.map fun proto => .ok (.requestedTransport proto)
  else if kind = Attr.lifetime then
    -- the four bytes are looked up with `get`, so they need no check of the length
    (readU32Reading value (if value = [] then "LIFETIME empty" else "LIFETIME short")).map
      (·.map .lifetime)
  else if kind = Attr.channelNumber then
    if value.length < 2 then some (.error (.malformed "CHANNEL-NUMBER short"))
    else (beAt value 0 2).map fun n => .ok (.channelNumber (UInt16.ofNat n))
  else if kind = Attr.unknownAttributes then
    if value.length % 2 ≠ 0 then some (.error (.malformed "UNKNOWN-ATTRIBUTES not even"))
    else some (.ok (.unknownAttributes (chunks2 value)))
  else if kind = Attr.dontFragment then some (.ok .dontFragment)
  else if kind = Attr.fingerprint then
    (readU32Reading value "FINGERPRINT shorter than 4 bytes").map (·.map .fingerprint)
  else some (.ok (.unknown kind value))

/-- The loop over what is left of the body; without fuel it has not ended. -/
def parseAttributesReading (txid : TransactionId) :
    ℕ → Bytes → Option (Except StunError (List Attribute))
  | fuel, rest =>
      if rest = [] then some (.ok [])
      else
        match fuel with
        | 0 => none
        | fuel + 1 =>
            if rest.length < 4 then some (.error .truncatedAttribute)
            else do
              let kind ← beAt rest 0 2
              let len ← beAt rest 2 2
              if rest.length < 4 + len then some (.error .truncatedValue)
              else do
                let value ← sliceAt rest 4 len
                match ← decodeAttributeReading (UInt16.ofNat kind) value txid with
                | .error e => some (.error e)
                | .ok a =>
                    let advance := 4 + paddedLen len
                    if rest.length < advance then some (.error .truncatedValue)
                    else do
                      let next ← sliceAt rest advance (rest.length - advance)
                      (parseAttributesReading txid fuel next).map (·.map (a :: ·))

def parseReading (buf : Bytes) : Option (Except StunError Message) :=
  if buf.length < headerLen then some (.error .tooShort)
  else do
    let typ ← beAt buf 0 2
    let declared ← beAt buf 2 2
    if declared % 4 ≠ 0 then some (.error .unpaddedLength)
    else do
      let cookie ← beAt buf 4 4
      if cookie ≠ magicCookie then some (.error .badMagicCookie)
      else do
        let txid ← blockAt buf 8 12
        let available := buf.length - headerLen
        if declared > available then some (.error (.lengthMismatch declared available))
        else do
          let body ← sliceAt buf headerLen declared
          (parseAttributesReading txid body.length body).map (·.map fun attributes =>
            { typ := ⟨UInt16.ofNat typ⟩, txid := txid, attributes := attributes })

/-! ### No read outside -/

section Reads

variable {data : Bytes} {i n : ℕ}

theorem sliceAt_of_le (h : i + n ≤ data.length) :
    sliceAt data i n = some ((data.drop i).take n) := by
  rw [sliceAt, if_pos h]

theorem beAt_of_le (h : i + n ≤ data.length) :
    beAt data i n = some (fromBeBytes ((data.drop i).take n)) := by
  rw [beAt, sliceAt_of_le h, Option.map_some]

theorem blockAt_eq_zeroPadded (h : i + n ≤ data.length) :
    blockAt data i n = some (Block.zeroPadded n ((data.drop i).take n)) := by
  obtain ⟨v, hv⟩ : ∃ v, blockAt data i n = some v := blockAt_of_le h
  have hlen : ((data.drop i).take n).length = n := by
    rw [List.length_take, List.length_drop]
    omega
  rw [hv, ← Block.toList_inj.mp ((toList_of_blockAt hv).trans
    (Block.toList_zeroPadded_of_length hlen).symm)]

theorem getElem?_eq_getD (h : i < data.length) : data[i]? = some (data.getD i 0) := by
  rw [List.getD_eq_getElem?_getD, List.getElem?_eq_getElem h, Option.getD_some]

end Reads

theorem decodeAddressReading_eq (value : Bytes) (txid : TransactionId) (xor : Bool) :
    decodeAddressReading value txid xor = some (decodeAddress value txid xor) := by
  unfold decodeAddressReading decodeAddress
  by_cases hshort : value.length < 4
  · rw [if_pos hshort, if_pos hshort]
  rw [if_neg hshort, if_neg hshort, getElem?_eq_getD (by omega), beAt_of_le (by omega)]
  simp only [Option.bind_eq_bind, Option.bind_some]
  by_cases h4 : value.getD 1 0 = familyIpv4
  · rw [if_pos h4, if_pos h4]
    by_cases h8 : value.length < 8
    · rw [if_pos h8, if_pos h8]
    · rw [if_neg h8, if_neg h8, blockAt_eq_zeroPadded (by omega), Option.bind_some]
  rw [if_neg h4, if_neg h4]
  by_cases h6 : value.getD 1 0 = familyIpv6
  · rw [if_pos h6, if_pos h6]
    by_cases h20 : value.length < 20
    · rw [if_pos h20, if_pos h20]
    · rw [if_neg h20, if_neg h20, blockAt_eq_zeroPadded (by omega), Option.bind_some]
  · rw [if_neg h6, if_neg h6]

theorem readU64Reading_eq (value : Bytes) : readU64Reading value = some (readU64 value) := by
  unfold readU64Reading readU64
  by_cases h : value.length < 8
  · rw [if_pos h, if_pos h]
  · rw [if_neg h, if_neg h, beAt_of_le (by omega), List.drop_zero]
    rfl

theorem readU32Reading_eq (value : Bytes) (what : String) :
    readU32Reading value what = some (readU32 value what) := by
  unfold readU32Reading readU32
  by_cases h : value.length < 4
  · rw [if_pos h, if_pos h]
  · rw [if_neg h, if_neg h, beAt_of_le (by omega), List.drop_zero]
    rfl

theorem map_reading {β γ : Type} {r : Option (Except StunError β)} {r' : Except StunError β}
    (h : r = some r') (f : β → γ) : r.map (·.map f) = some (r'.map f) := by
  rw [h, Option.map_some]

theorem ite_reading {β : Type} {p : Prop} [Decidable p] {x y : Option β} {x' y' : β}
    (hx : p → x = some x') (hy : ¬ p → y = some y') :
    (if p then x else y) = some (if p then x' else y') := by
  by_cases h : p
  · rw [if_pos h, if_pos h, hx h]
  · rw [if_neg h, if_neg h, hy h]

theorem decodeAttributeReading_eq (kind : UInt16) (value : Bytes) (txid : TransactionId) :
    decodeAttributeReading kind value txid = some (decodeAttribute kind value txid) := by
  unfold decodeAttributeReading decodeAttribute
  have haddr := decodeAddressReading_eq value txid
  refine ite_reading (fun _ => map_reading (haddr false) _) fun _ => ?_
  refine ite_reading (fun _ => map_reading (haddr true) _) fun _ => ?_
  refine ite_reading (fun _ => rfl) fun _ => ?_
  refine ite_reading (fun _ => ?_) fun _ => ?_
  · refine ite_reading (fun _ => rfl) fun hlen => ?_
    rw [blockAt_eq_zeroPadded (by omega), List.drop_zero]
    rfl
  refine ite_reading (fun _ => ?_) fun _ => ?_
  · refine ite_reading (fun _ => rfl) fun hlen => ?_
    have hreason : (value.drop 4).take (value.length - 4) = value.drop 4 := by
      rw [← List.length_drop, List.take_length]
    rw [getElem?_eq_getD (by omega), getElem?_eq_getD (by omega), sliceAt_of_le (by omega), hreason]
    rfl
  refine ite_reading (fun _ => map_reading (readU32Reading_eq value _) _) fun _ => ?_
  refine ite_reading (fun _ => rfl) fun _ => ?_
  refine ite_reading (fun _ => map_reading (readU64Reading_eq value) _) fun _ => ?_
  refine ite_reading (fun _ => map_reading (readU64Reading_eq value) _) fun _ => ?_
  refine ite_reading (fun _ => rfl) fun _ => ?_
  refine ite_reading (fun _ => map_reading (haddr true) _) fun _ => ?_
  refine ite_reading (fun _ => map_reading (haddr true) _) fun _ => ?_
  refine ite_reading (fun _ => rfl) fun _ => ?_
  refine ite_reading (fun _ => rfl) fun _ => ?_
  refine ite_reading (fun _ => rfl) fun _ => ?_
  refine ite_reading (fun _ => ?_) fun _ => ?_
  · cases value with
    | nil => rfl
    | cons proto value => rfl
  refine ite_reading (fun _ => map_reading (readU32Reading_eq value _) _) fun _ => ?_
  refine ite_reading (fun _ => ?_) fun _ => ?_
  · refine ite_reading (fun _ => rfl) fun hlen => ?_
    rw [beAt_of_le (by omega), List.drop_zero]
    rfl
  refine ite_reading (fun _ => ite_reading (fun _ => rfl) fun _ => rfl) fun _ => ?_
  refine ite_reading (fun _ => rfl) fun _ => ?_
  exact ite_reading (fun _ => map_reading (readU32Reading_eq value _) _) fun _ => rfl

theorem parseAttributesReading_eq (txid : TransactionId) (fuel : ℕ) {rest : Bytes}
    (hfuel : rest.length ≤ fuel) :
    parseAttributesReading txid fuel rest = some (parseAttributes txid fuel rest) := by
  induction fuel generalizing rest with
  | zero =>
      have hempty : rest = [] := List.eq_nil_of_length_eq_zero (by omega)
      rw [parseAttributesReading, if_pos hempty]
      rfl
  | succ fuel ih =>
      rw [parseAttributesReading, parseAttributes]
      refine ite_reading (fun _ => rfl) fun _ => ?_
      refine ite_reading (fun _ => rfl) fun hheader => ?_
      rw [beAt_of_le (by omega), beAt_of_le (by omega), List.drop_zero]
      simp only [Option.bind_eq_bind, Option.bind_some]
      refine ite_reading (fun _ => rfl) fun hvalue => ?_
      rw [sliceAt_of_le (by omega)]
      simp only [Option.bind_some, decodeAttributeReading_eq]
      cases decodeAttribute (UInt16.ofNat (fromBeBytes (rest.take 2)))
          ((rest.drop 4).take (fromBeBytes ((rest.drop 2).take 2))) txid with
      | error e => rfl
      | ok a =>
          refine ite_reading (fun _ => rfl) fun hpadded => ?_
          have hnext : (rest.drop (4 + paddedLen (fromBeBytes ((rest.drop 2).take 2)))).take
              (rest.length - (4 + paddedLen (fromBeBytes ((rest.drop 2).take 2)))) =
              rest.drop (4 + paddedLen (fromBeBytes ((rest.drop 2).take 2))) := by
            rw [← List.length_drop, List.take_length]
          rw [sliceAt_of_le (by omega), hnext]
          exact map_reading (ih (by rw [List.length_drop]; omega)) _

theorem parseReading_eq (buf : Bytes) : parseReading buf = some (parse buf) := by
  unfold parseReading parse
  refine ite_reading (fun _ => rfl) fun hheader => ?_
  rw [headerLen] at hheader
  rw [beAt_of_le (by omega), beAt_of_le (by omega), List.drop_zero]
  simp only [Option.bind_eq_bind, Option.bind_some]
  refine ite_reading (fun _ => rfl) fun _ => ?_
  rw [beAt_of_le (by omega), Option.bind_some]
  refine ite_reading (fun _ => rfl) fun _ => ?_
  rw [blockAt_eq_zeroPadded (by omega), Option.bind_some]
  refine ite_reading (fun _ => rfl) fun hdeclared => ?_
  rw [sliceAt_of_le (by rw [headerLen] at hdeclared ⊢; omega), Option.bind_some]
  exact map_reading (parseAttributesReading_eq _ _ le_rfl) _

end Vantablack.Net.Stun
