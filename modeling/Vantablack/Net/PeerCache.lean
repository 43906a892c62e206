import Vantablack.Handshake.HandlePkt
import Vantablack.Lib.Inet
import Vantablack.Lib.Text

/-!
The peer descriptors of `net/discovery.rs`: their bytes, their URI and the file they are kept in.

A result that may be a panic is an `Option`, and `none` is the panic of a range out of bounds. The
signature of a key and the decoder of hexadecimal text come from other crates.
-/

namespace Vantablack.Net

open Lib Layers Handshake Receive List

/-! ### Addresses -/

/-- `Ipv6Addr::octets`. -/
def segmentOctets (segments : Block UInt16 8) : Octets 16 :=
  .ofFn fun j => UInt8.ofNat
    (if j.val % 2 = 0 then (segments.get ⟨j.val / 2, by omega⟩).toNat / 256
    else (segments.get ⟨j.val / 2, by omega⟩).toNat)

/-- The segments of `Ipv6Addr::from`. -/
def octetSegments (octets : Octets 16) : Block UInt16 8 :=
  .ofFn fun i => UInt16.ofNat
    ((octets.get ⟨2 * i.val, by omega⟩).toNat * 256 + (octets.get ⟨2 * i.val + 1, by omega⟩).toNat)

theorem octetSegments_segmentOctets (segments : Block UInt16 8) :
    octetSegments (segmentOctets segments) = segments := by
  apply List.Vector.ext
  intro i
  have hlt := (segments.get i).toNat_lt
  have hhigh : 2 * i.val / 2 = i.val := by omega
  have hlow : (2 * i.val + 1) / 2 = i.val := by omega
  have hodd : ¬ (2 * i.val + 1) % 2 = 0 := by omega
  rw [octetSegments, segmentOctets, List.Vector.get_ofFn, List.Vector.get_ofFn,
    List.Vector.get_ofFn]
  simp only [hhigh, hlow, if_neg hodd, Nat.mul_mod_right, if_true, Fin.eta, UInt8.toNat_ofNat']
  apply UInt16.toNat.inj
  rw [UInt16.toNat_ofNat']
  omega

def endpointIp : Inet.SocketAddr → IpAddr
  | .v4 a => .v4 a.ip
  | .v6 a => .v6 (segmentOctets a.segments)

def endpointPort : Inet.SocketAddr → UInt16
  | .v4 a => a.port
  | .v6 a => a.port

def newEndpoint (ip : IpAddr) (port : UInt16) : Inet.SocketAddr :=
  match ip with
  | .v4 octets => .v4 { ip := octets, port := port }
  | .v6 octets =>
      .v6 { segments := octetSegments octets, port := port, flowinfo := 0, scopeId := 0 }

/-- An address without a scope and a flow label. -/
def PlainEndpoint : Inet.SocketAddr → Prop
  | .v4 _ => True
  | .v6 a => a.flowinfo = 0 ∧ a.scopeId = 0

theorem newEndpoint_eq_iff (addr : Inet.SocketAddr) :
    newEndpoint (endpointIp addr) (endpointPort addr) = addr ↔ PlainEndpoint addr := by
  cases addr with
  | v4 a => exact iff_of_true rfl trivial
  | v6 a =>
      obtain ⟨segments, port, flowinfo, scopeId⟩ := a
      simp [newEndpoint, endpointIp, endpointPort, PlainEndpoint, octetSegments_segmentOctets,
        eq_comm]

/-! ### Descriptors -/

structure PeerDescriptor where
  ed25519Pk : Octets 32
  mlKemHash : Octets 16
  endpoint : Inet.SocketAddr
  natType : UInt8
  timestamp : UInt64
  signature : Octets 64
  deriving DecidableEq

def vbUriPrefix : String := "vb://"

/-- What the clock reads, in seconds; a time of the system has them in an `i64`. -/
abbrev UnixTime := Fin (2 ^ 63)

/-- The version of an address and its octets. -/
def ipBytes : IpAddr → Bytes
  | .v4 octets => 4 :: octets.toList
  | .v6 octets => 6 :: octets.toList

namespace PeerDescriptor

def magic : Bytes := utf8 "VBPD"

def signingBytes (pk : Octets 32) (kemHash : Octets 16) (endpoint : Inet.SocketAddr)
    (natType : UInt8) (timestamp : UInt64) : Bytes :=
  magic ++ (pk.toList ++ (kemHash.toList ++ (ipBytes (endpointIp endpoint) ++
    (toBeBytes 2 (endpointPort endpoint).toNat ++ (natType :: toBeBytes 8 timestamp.toNat)))))

/-- `now` is what the clock reads. -/
def verify (verifyPeerSignature : Octets 32 → Bytes → Octets 64 → Bool) (now : UnixTime)
    (maxSkewSecs : ℕ) (d : PeerDescriptor) : Bool :=
  if now.val + maxSkewSecs < d.timestamp.toNat then false
  else if d.timestamp.toNat < now.val ∧ maxSkewSecs < now.val - d.timestamp.toNat then false
  else verifyPeerSignature d.ed25519Pk
    (signingBytes d.ed25519Pk d.mlKemHash d.endpoint d.natType d.timestamp) d.signature

def toBytes (d : PeerDescriptor) : Bytes :=
  magic ++ (d.ed25519Pk.toList ++ (d.mlKemHash.toList ++ (ipBytes (endpointIp d.endpoint) ++
    (toBeBytes 2 (endpointPort d.endpoint).toNat ++
      (d.natType :: (toBeBytes 8 d.timestamp.toNat ++ d.signature.toList))))))

/-- The one test of the length; it is that of a descriptor with an IPv4 address. -/
def minLen : ℕ := 4 + 32 + 16 + 1 + 4 + 2 + 1 + 8 + 64

/-- The address of `from_bytes` and where it ends. `some none` is an unknown version. -/
def readIp (bytes : Bytes) (pos : ℕ) : Option (Option (IpAddr × ℕ)) := do
  let ipVer ← bytes[pos]?
  let pos := pos + 1
  if ipVer = 4 then
    let octets ← blockAt bytes pos 4
    some (some (.v4 octets, pos + 4))
  else if ipVer = 6 then
    let octets ← blockAt bytes pos 16
    some (some (.v6 octets, pos + 16))
  else some none

/-- What `from_bytes` reads behind the address. -/
def readRest (bytes : Bytes) (pk : Octets 32) (kemHash : Octets 16) (ip : IpAddr) (pos : ℕ) :
    Option PeerDescriptor := do
  let port ← sliceAt bytes pos 2
  let pos := pos + 2
  let natType ← bytes[pos]?
  let pos := pos + 1
  let timestamp ← sliceAt bytes pos 8
  let pos := pos + 8
  let signature ← blockAt bytes pos 64
  some { ed25519Pk := pk
         mlKemHash := kemHash
         endpoint := newEndpoint ip (UInt16.ofNat (fromBeBytes port))
         natType := natType
         timestamp := UInt64.ofNat (fromBeBytes timestamp)
         signature := signature }

def fromBytes (bytes : Bytes) : Option (Option PeerDescriptor) :=
  if bytes.length < minLen ∨ bytes.take 4 ≠ magic then some none
  else do
    let pos := 4
    let pk ← blockAt bytes pos 32
    let pos := pos + 32
    let kemHash ← blockAt bytes pos 16
    let pos := pos + 16
    match ← readIp bytes pos with
    | some (ip, pos) => (readRest bytes pk kemHash ip pos).map some
    | none => some none

def toUri (d : PeerDescriptor) : String := vbUriPrefix ++ hexEncode d.toBytes

def fromUri (hexDecode : String → Option Bytes) (uri : String) : Option (Option PeerDescriptor) :=
  match Text.stripPrefix vbUriPrefix (Text.trim uri.toList) with
  | some payload =>
      match hexDecode (String.ofList payload) with
      | some bytes => fromBytes bytes
      | none => some none
  | none => some none

end PeerDescriptor

/-! ### The cache -/

inductive CacheError where
  | invalidData (message : String)
  deriving DecidableEq

namespace LocalPeerCache

open PeerDescriptor

def header : Bytes := utf8 "VBPCACHE1"

/-- A descriptor in the file, behind its length. -/
def record (d : PeerDescriptor) : Bytes := toBeBytes 2 d.toBytes.length ++ d.toBytes

/-- What `save` writes. -/
def save (peers : List PeerDescriptor) : Bytes :=
  header ++ (toBeBytes 4 peers.length ++ peers.flatMap record)

/-- How old a descriptor may be, 30 days. -/
def maxAge : ℕ := 86400 * 30

variable (verifyPeerSignature : Octets 32 → Bytes → Octets 64 → Bool)

/-- The loop over the records that are left, the first one of which is number `i`. The clock is read
for every record. -/
def loadLoop (now : ℕ → UnixTime) (raw : Bytes) : ℕ → ℕ → ℕ → Option (List PeerDescriptor)
  | 0, _, _ => some []
  | count + 1, i, pos =>
      if raw.length < pos + 2 then some []
      else do
        let len ← sliceAt raw pos 2
        let len := fromBeBytes len
        let pos := pos + 2
        if raw.length < pos + len then some []
        else do
          let slice ← sliceAt raw pos len
          let desc ← fromBytes slice
          let peers ← loadLoop now raw count (i + 1) (pos + len)
          match desc with
          | some d =>
              if d.verify verifyPeerSignature (now i) maxAge then some (d :: peers)
              else some peers
          | none => some peers

/-- `load`, of a file that could be read. -/
def load (now : ℕ → UnixTime) (raw : Bytes) :
    Option (Except CacheError (List PeerDescriptor)) :=
  if raw.length < 13 ∨ raw.take 9 ≠ header then
    some (.error (.invalidData "invalid peer cache header"))
  else do
    let count ← sliceAt raw 9 4
    (loadLoop verifyPeerSignature now raw (fromBeBytes count) 0 13).map .ok

end LocalPeerCache

/-! ### The bytes of a descriptor -/

namespace PeerDescriptor

/-- The descriptor without the scope and the flow label of its address. -/
def plain (d : PeerDescriptor) : PeerDescriptor :=
  { d with endpoint := newEndpoint (endpointIp d.endpoint) (endpointPort d.endpoint) }

variable (d : PeerDescriptor)

theorem plain_eq_iff : d.plain = d ↔ PlainEndpoint d.endpoint := by
  rw [← newEndpoint_eq_iff]
  constructor
  · exact congrArg endpoint
  · intro h
    rw [plain, h]

theorem endpointIp_plain : endpointIp d.plain.endpoint = endpointIp d.endpoint := by
  obtain ⟨_, _, endpoint, _, _, _⟩ := d
  cases endpoint with
  | v4 a => rfl
  | v6 a => exact congrArg IpAddr.v6 (by rw [octetSegments_segmentOctets])

theorem endpointPort_plain : endpointPort d.plain.endpoint = endpointPort d.endpoint := by
  obtain ⟨_, _, endpoint, _, _, _⟩ := d
  cases endpoint <;> rfl

theorem verify_plain (verifyPeerSignature : Octets 32 → Bytes → Octets 64 → Bool)
    (now : UnixTime) (maxSkewSecs : ℕ) (d : PeerDescriptor) :
    d.plain.verify verifyPeerSignature now maxSkewSecs =
      d.verify verifyPeerSignature now maxSkewSecs := by
  rw [verify, verify, signingBytes, signingBytes, endpointIp_plain, endpointPort_plain]
  rfl

theorem length_magic : magic.length = 4 := rfl

theorem length_ipBytes_v4 (octets : Octets 4) : (ipBytes (.v4 octets)).length = 5 := by
  rw [ipBytes, length_cons, octets.toList_length]

theorem length_ipBytes_v6 (octets : Octets 16) : (ipBytes (.v6 octets)).length = 17 := by
  rw [ipBytes, length_cons, octets.toList_length]

theorem length_ipBytes (ip : IpAddr) : (ipBytes ip).length = 5 ∨ (ipBytes ip).length = 17 := by
  cases ip with
  | v4 octets => exact Or.inl (length_ipBytes_v4 octets)
  | v6 octets => exact Or.inr (length_ipBytes_v6 octets)

theorem length_toBytes_eq : d.toBytes.length = 127 + (ipBytes (endpointIp d.endpoint)).length := by
  simp only [toBytes, length_append, length_cons, length_toBeBytes,
    List.Vector.toList_length, length_magic]
  omega

theorem length_toBytes : minLen ≤ d.toBytes.length ∧ d.toBytes.length < 256 ^ 2 := by
  rw [length_toBytes_eq, minLen]
  rcases length_ipBytes (endpointIp d.endpoint) with h | h <;> omega

theorem readIp_of_restAt {bytes rest : Bytes} {pos : ℕ} {ip : IpAddr}
    (h : RestAt bytes pos (ipBytes ip ++ rest)) :
    readIp bytes pos = some (some (ip, pos + (ipBytes ip).length)) := by
  cases ip with
  | v4 octets =>
      rw [length_ipBytes_v4, readIp, h.getElem?, Option.bind_eq_bind, Option.bind_some, if_pos rfl,
        h.next.blockAt]
      rfl
  | v6 octets =>
      rw [length_ipBytes_v6, readIp, h.getElem?, Option.bind_eq_bind, Option.bind_some,
        if_neg (by decide), if_pos rfl, h.next.blockAt]
      rfl

theorem fromBytes_toBytes : fromBytes d.toBytes = some (some d.plain) := by
  have hstart := RestAt.start d.toBytes
  nth_rw 2 [toBytes] at hstart
  have hpk : RestAt d.toBytes 4 _ := hstart.skip length_magic
  have hhash := hpk.block
  have hip := hhash.block
  have hport := hip.skip rfl
  have hnat := hport.skip (length_toBeBytes 2 _)
  have htime := hnat.next
  have hsig := htime.skip (length_toBeBytes 8 _)
  have hlong : ¬ (d.toBytes.length < minLen ∨ d.toBytes.take 4 ≠ magic) := by
    rintro (hshort | hmagic)
    · exact absurd d.length_toBytes.1 (not_le.mpr hshort)
    · exact hmagic (by rw [toBytes, take_left' length_magic])
  have hport' : UInt16.ofNat (fromBeBytes (toBeBytes 2 (endpointPort d.endpoint).toNat)) =
      endpointPort d.endpoint := by
    rw [fromBeBytes_toBeBytes (endpointPort d.endpoint).toNat_lt, UInt16.ofNat_toNat]
  have htime' : UInt64.ofNat (fromBeBytes (toBeBytes 8 d.timestamp.toNat)) = d.timestamp := by
    rw [fromBeBytes_toBeBytes d.timestamp.toNat_lt, UInt64.ofNat_toNat]
  rw [← append_nil d.signature.toList] at hsig
  rw [fromBytes, if_neg hlong]
  simp only [Option.bind_eq_bind, Option.bind_some, hpk.blockAt, hhash.blockAt,
    readIp_of_restAt hip, readRest, hport.sliceAt (length_toBeBytes 2 _), hnat.getElem?,
    htime.sliceAt (length_toBeBytes 8 _), hsig.blockAt, hport', htime', Option.map_some]
  rfl

/-- Too short for the address that it says it has. -/
structure CutShort (bytes : Bytes) : Prop where
  minLen_le : minLen ≤ bytes.length
  length_lt : bytes.length < minLen + 12
  magic : bytes.take 4 = magic
  ipVer : bytes[52]? = some 6

instance (bytes : Bytes) : Decidable (CutShort bytes) :=
  decidable_of_iff (minLen ≤ bytes.length ∧ bytes.length < minLen + 12 ∧ bytes.take 4 = magic ∧
    bytes[52]? = some 6) ⟨fun ⟨h₁, h₂, h₃, h₄⟩ => ⟨h₁, h₂, h₃, h₄⟩, fun ⟨h₁, h₂, h₃, h₄⟩ =>
      ⟨h₁, h₂, h₃, h₄⟩⟩

theorem blockAt_of_lt {bytes : Bytes} {pos n : ℕ} (h : bytes.length < pos + n) :
    blockAt bytes pos n = none := by
  rw [blockAt, sliceAt, if_neg (by omega), Option.bind_none]

theorem readRest_ne_none_iff {bytes : Bytes} {pk : Octets 32} {kemHash : Octets 16} {ip : IpAddr}
    {pos : ℕ} : readRest bytes pk kemHash ip pos ≠ none ↔ pos + 75 ≤ bytes.length := by
  constructor
  · intro h
    by_contra hlt
    apply h
    have hsig : blockAt bytes (pos + 2 + 1 + 8) 64 = none := blockAt_of_lt (by omega)
    simp [readRest, hsig]
  · intro hle
    obtain ⟨signature, hsig⟩ := blockAt_of_le (show pos + 2 + 1 + 8 + 64 ≤ bytes.length by omega)
    have hnat : pos + 2 < bytes.length := by omega
    simp only [readRest, sliceAt, if_pos (show pos + 2 ≤ bytes.length by omega),
      if_pos (show pos + 2 + 1 + 8 ≤ bytes.length by omega), getElem?_eq_getElem hnat, hsig,
      Option.bind_eq_bind, Option.bind_some]
    exact Option.some_ne_none _

theorem fromBytes_eq_none_iff (bytes : Bytes) : fromBytes bytes = none ↔ CutShort bytes := by
  by_cases hhead : bytes.length < minLen ∨ bytes.take 4 ≠ magic
  · rw [fromBytes, if_pos hhead]
    refine iff_of_false (Option.some_ne_none _) fun h => ?_
    rcases hhead with hshort | hmagic
    · exact absurd h.minLen_le (not_le.mpr hshort)
    · exact hmagic h.magic
  · obtain ⟨hlong, hmagic⟩ := not_or.mp hhead
    rw [not_lt, minLen] at hlong
    rw [not_not] at hmagic
    obtain ⟨pk, hpk⟩ := blockAt_of_le (show 4 + 32 ≤ bytes.length by omega)
    obtain ⟨kemHash, hhash⟩ := blockAt_of_le (show 4 + 32 + 16 ≤ bytes.length by omega)
    have hver : bytes[4 + 32 + 16]? = some bytes[52] := getElem?_eq_getElem (by omega)
    have hcut : CutShort bytes ↔ bytes.length < 144 ∧ bytes[52] = 6 := by
      constructor
      · exact fun h => ⟨h.length_lt, Option.some.inj (hver.symm.trans h.ipVer)⟩
      · exact fun h => ⟨hlong, h.1, hmagic, hver.trans (congrArg some h.2)⟩
    rw [fromBytes, if_neg hhead, hcut]
    simp only [Option.bind_eq_bind, Option.bind_some, hpk, hhash, readIp, hver]
    by_cases h4 : bytes[52] = 4
    · obtain ⟨octets, hoctets⟩ := blockAt_of_le (show 4 + 32 + 16 + 1 + 4 ≤ bytes.length by omega)
      rw [if_pos h4, hoctets, h4]
      simp only [Option.bind_some, Option.map_eq_none_iff]
      exact iff_of_false (readRest_ne_none_iff.mpr (by omega)) fun h => absurd h.2 (by decide)
    · by_cases h6 : bytes[52] = 6
      · obtain ⟨octets, hoctets⟩ := blockAt_of_le
          (show 4 + 32 + 16 + 1 + 16 ≤ bytes.length by omega)
        rw [if_neg h4, if_pos h6, hoctets]
        simp only [Option.bind_some, Option.map_eq_none_iff]
        rw [← not_iff_not, ← Ne, readRest_ne_none_iff, not_and_or, not_lt, h6]
        simp only [not_true_eq_false, or_false]
      · rw [if_neg h4, if_neg h6]
        exact iff_of_false (Option.some_ne_none _) fun h => h6 h.2

/-! ### The URI of a descriptor -/

theorem hexDigit_not_isWhitespace {n : ℕ} (h : n < 16) :
    Text.isWhitespace (hexDigit n) = false := by
  interval_cases n <;> rfl

theorem toList_toUri : d.toUri.toList = vbUriPrefix.toList ++ (hexEncode d.toBytes).toList := by
  rw [toUri, String.toList_append]

theorem trim_toUri : Text.trim d.toUri.toList = d.toUri.toList := by
  refine Text.trim_of_trimmed (Text.trimmed_of_forall fun c hc => ?_)
  rw [toList_toUri, mem_append] at hc
  rcases hc with hc | hc
  · have hall : (vbUriPrefix.toList.all fun c => !Text.isWhitespace c) = true := by decide
    exact Bool.not_eq_true' _ ▸ all_eq_true.mp hall c hc
  · rw [hexEncode, String.toList_ofList] at hc
    obtain ⟨b, -, hb⟩ := mem_flatMap.mp hc
    have hlt := b.toNat_lt
    rcases mem_cons.mp hb with rfl | hb
    · exact hexDigit_not_isWhitespace (by omega)
    · rw [mem_singleton.mp hb]
      exact hexDigit_not_isWhitespace (by omega)

theorem fromUri_toUri {hexDecode : String → Option Bytes}
    (hdecode : ∀ bytes, hexDecode (hexEncode bytes) = some bytes) (d : PeerDescriptor) :
    fromUri hexDecode d.toUri = some (some d.plain) := by
  rw [fromUri, trim_toUri, toList_toUri, Text.stripPrefix_append]
  dsimp only
  rw [String.ofList_toList, hdecode]
  exact fromBytes_toBytes d

end PeerDescriptor

/-! ### The records of a file -/

namespace LocalPeerCache

open PeerDescriptor

/-- The records at the front of a text, at most `count` of them. -/
def records : ℕ → Bytes → List Bytes
  | 0, _ => []
  | count + 1, raw =>
      let len := fromBeBytes (raw.take 2)
      if raw.length < 2 ∨ (raw.drop 2).length < len then []
      else (raw.drop 2).take len :: records count ((raw.drop 2).drop len)

/-- The records that `load` looks at. -/
def fileRecords (raw : Bytes) : List Bytes :=
  if raw.length < 13 ∨ raw.take 9 ≠ header then []
  else records (fromBeBytes ((raw.drop 9).take 4)) (raw.drop 13)

variable (verifyPeerSignature : Octets 32 → Bytes → Octets 64 → Bool) (now : ℕ → UnixTime)

/-- What `load` makes of records, the first one of which is number `i`. -/
def readRecords : ℕ → List Bytes → Option (List PeerDescriptor)
  | _, [] => some []
  | i, slice :: rest => do
      let desc ← fromBytes slice
      let peers ← readRecords (i + 1) rest
      some ((desc.filter fun d => d.verify verifyPeerSignature (now i) maxAge).toList ++ peers)

theorem loadLoop_eq {raw rest : Bytes} {pos : ℕ} (h : RestAt raw pos rest) (count i : ℕ) :
    loadLoop verifyPeerSignature now raw count i pos =
      readRecords verifyPeerSignature now i (records count rest) := by
  induction count generalizing i pos rest with
  | zero => rfl
  | succ count ih =>
      have hlen := h.length_eq
      rw [loadLoop, records]
      by_cases hshort : raw.length < pos + 2
      · rw [if_pos hshort, if_pos (Or.inl (by omega))]
        rfl
      · have hrest : RestAt raw pos (rest.take 2 ++ rest.drop 2) := by
          rwa [take_append_drop]
        have htwo : (rest.take 2).length = 2 := by
          rw [length_take]
          omega
        have hnext := hrest.skip htwo
        rw [if_neg hshort, hrest.sliceAt htwo]
        simp only [Option.bind_eq_bind, Option.bind_some]
        set len := fromBeBytes (rest.take 2)
        have hleft : (rest.drop 2).length = rest.length - 2 := length_drop
        by_cases hcut : raw.length < pos + 2 + len
        · rw [if_pos hcut, if_pos (Or.inr (by omega))]
          rfl
        · have hfit : len ≤ (rest.drop 2).length := by omega
          have hslice :
              RestAt raw (pos + 2) ((rest.drop 2).take len ++ (rest.drop 2).drop len) := by
            rwa [take_append_drop]
          have hlenTake : ((rest.drop 2).take len).length = len := length_take_of_le hfit
          rw [if_neg hcut, if_neg (by omega), hslice.sliceAt hlenTake, Option.bind_some,
            ih (hslice.skip hlenTake), readRecords]
          congr 1
          funext desc
          congr 1
          funext peers
          cases desc with
          | none => rfl
          | some d =>
              rw [Option.filter_some]
              dsimp only
              split <;> rfl

theorem load_eq (raw : Bytes) : load verifyPeerSignature now raw =
    if raw.length < 13 ∨ raw.take 9 ≠ header then
      some (.error (.invalidData "invalid peer cache header"))
    else (readRecords verifyPeerSignature now 0 (fileRecords raw)).map .ok := by
  rw [load, fileRecords]
  split
  · rfl
  · rename_i hhead
    obtain ⟨hlong, -⟩ := not_or.mp hhead
    have hrest : RestAt raw 13 (raw.drop 13) := ⟨not_lt.mp hlong, rfl⟩
    have hcount : sliceAt raw 9 4 = some ((raw.drop 9).take 4) := if_pos (by omega)
    rw [hcount, Option.bind_eq_bind, Option.bind_some, loadLoop_eq _ _ hrest]

theorem readRecords_eq_none_iff (i : ℕ) (l : List Bytes) :
    readRecords verifyPeerSignature now i l = none ↔ ∃ slice ∈ l, CutShort slice := by
  induction l generalizing i with
  | nil => simp [readRecords]
  | cons slice rest ih =>
      rw [exists_mem_cons_iff, ← ih (i + 1), ← fromBytes_eq_none_iff, readRecords]
      cases fromBytes slice with
      | none => simp
      | some desc => cases readRecords verifyPeerSignature now (i + 1) rest <;> simp

theorem load_eq_none_iff (raw : Bytes) :
    load verifyPeerSignature now raw = none ↔ ∃ slice ∈ fileRecords raw, CutShort slice := by
  rw [load_eq]
  split
  · rename_i hhead
    rw [fileRecords, if_pos hhead]
    simp
  · rw [Option.map_eq_none_iff, readRecords_eq_none_iff]

/-! ### Saving and loading -/

theorem records_flatMap (peers : List PeerDescriptor) :
    records peers.length (peers.flatMap record) = peers.map toBytes := by
  induction peers with
  | nil => rfl
  | cons d peers ih =>
      have hlen := fromBeBytes_toBeBytes d.length_toBytes.2
      have htwo := length_toBeBytes 2 d.toBytes.length
      rw [flatMap_cons, record, append_assoc, length_cons, records,
        take_left' htwo, drop_left' htwo, hlen, take_left, drop_left, ih,
        map_cons, if_neg]
      rw [length_append, length_append, htwo]
      omega

theorem length_header : header.length = 9 := rfl

theorem save_header (peers : List PeerDescriptor) :
    ¬ ((save peers).length < 13 ∨ (save peers).take 9 ≠ header) := by
  rintro (hshort | hheader)
  · rw [save, length_append, length_append, length_toBeBytes, length_header] at hshort
    omega
  · exact hheader (by rw [save, take_left' length_header])

theorem fileRecords_save {peers : List PeerDescriptor} (hcount : peers.length < 2 ^ 32) :
    fileRecords (save peers) = peers.map toBytes := by
  have hfour := length_toBeBytes 4 peers.length
  have hdrop : (save peers).drop 13 = ((save peers).drop 9).drop 4 := by rw [drop_drop]
  rw [fileRecords, if_neg (save_header peers), hdrop, save, drop_left' length_header,
    take_left' hfour, drop_left' hfour, fromBeBytes_toBeBytes hcount, records_flatMap]

/-- The descriptors that verify, each by the clock as it is when its record is looked at. -/
def verified (i : ℕ) (peers : List PeerDescriptor) : List PeerDescriptor :=
  ((peers.zipIdx i).filter fun d => d.1.verify verifyPeerSignature (now d.2) maxAge).map Prod.fst

theorem readRecords_map_toBytes (i : ℕ) (peers : List PeerDescriptor) :
    readRecords verifyPeerSignature now i (peers.map toBytes) =
      some ((verified verifyPeerSignature now i peers).map plain) := by
  induction peers generalizing i with
  | nil => rfl
  | cons d peers ih =>
      rw [map_cons, readRecords, fromBytes_toBytes, ih, verified, verified, zipIdx_cons,
        filter_cons]
      simp only [Option.bind_eq_bind, Option.bind_some, Option.filter_some, verify_plain]
      split <;> rfl

theorem load_save {peers : List PeerDescriptor} (hcount : peers.length < 2 ^ 32) :
    load verifyPeerSignature now (save peers) =
      some (.ok ((verified verifyPeerSignature now 0 peers).map plain)) := by
  rw [load_eq, if_neg (save_header peers), fileRecords_save hcount, readRecords_map_toBytes,
    Option.map_some]

theorem load_save_eq_iff {peers : List PeerDescriptor} (hcount : peers.length < 2 ^ 32) :
    load verifyPeerSignature now (save peers) =
        some (.ok (verified verifyPeerSignature now 0 peers)) ↔
      ∀ d ∈ verified verifyPeerSignature now 0 peers, PlainEndpoint d.endpoint := by
  rw [load_save _ _ hcount, Option.some_inj, Except.ok.injEq]
  nth_rw 2 [← map_id (verified verifyPeerSignature now 0 peers)]
  rw [map_inj_left]
  exact forall₂_congr fun d _ => d.plain_eq_iff

end LocalPeerCache

/-- The hexadecimal digits of two characters. -/
def hexPairs : List Char → Option Bytes
  | [] => some []
  | [_] => none
  | high :: low :: rest => do
      let high ← digitValue 16 (UInt8.ofNat high.toNat)
      let low ← digitValue 16 (UInt8.ofNat low.toNat)
      let bytes ← hexPairs rest
      some (UInt8.ofNat (high * 16 + low) :: bytes)

theorem digitValue_hexDigit {n : ℕ} (h : n < 16) :
    digitValue 16 (UInt8.ofNat (hexDigit n).toNat) = some n := by
  interval_cases n <;> rfl

theorem hexPairs_hexEncode (bytes : Bytes) :
    hexPairs (hexEncode bytes).toList = some bytes := by
  rw [hexEncode, String.toList_ofList]
  induction bytes with
  | nil => rfl
  | cons b bytes ih =>
      have hlt := b.toNat_lt
      have hbyte : UInt8.ofNat (b.toNat / 16 * 16 + b.toNat % 16) = b := by
        rw [Nat.div_add_mod', UInt8.ofNat_toNat]
      simp only [flatMap_cons, cons_append, nil_append, hexPairs]
      rw [digitValue_hexDigit (by omega), digitValue_hexDigit (by omega), ih]
      simp only [Option.bind_eq_bind, Option.bind_some, hbyte]

def localPeer : PeerDescriptor where
  ed25519Pk := .replicate 32 1
  mlKemHash := .replicate 16 2
  endpoint := .v4 { ip := ⟨[127, 0, 0, 1], by decide⟩, port := 4433 }
  natType := 1
  timestamp := 1700000000
  signature := .replicate 64 3

/-- As many bytes as with an IPv4 address, and the version of an IPv6 address. -/
def shortSix : Bytes :=
  PeerDescriptor.magic ++ (replicate 48 0 ++ 6 :: replicate 79 0)

end Vantablack.Net
