import Vantablack.Crypto
import Vantablack.Lib.Bytes

/-!
The handshake messages of `layers/l1_kem.rs`: what each of them signs, how it is laid out
and how it is read back. A signature is made by a parameter `identitySign`. Copying fields
into a zeroed buffer at fixed offsets is the concatenation of the fields.
-/

namespace Vantablack

open Lib

/-- A fixed-size byte array, the model of `[u8; n]`. -/
abbrev Octets (n : ℕ) := Block UInt8 n

/-- The bytes of a string: the model of byte-string literals and of `str::as_bytes`. -/
def utf8 (s : String) : Bytes := s.toUTF8.data.toList

theorem utf8_inj {s t : String} (h : utf8 s = utf8 t) : s = t :=
  String.toByteArray_inj.mp (ByteArray.ext (Array.toList_inj.mp h))

/-- `HybridCipherSuite` of `layers/l1_kem.rs`. -/
inductive HybridCipherSuite where
  | x25519MlKem512V2
  | x25519MlKem768V3
  deriving DecidableEq, Repr

namespace HybridCipherSuite

def wireId : HybridCipherSuite → UInt8
  | x25519MlKem512V2 => 1
  | x25519MlKem768V3 => 2

def fromWireId (id : UInt8) : Option HybridCipherSuite :=
  if id = 1 then some x25519MlKem512V2
  else if id = 2 then some x25519MlKem768V3
  else none

@[simp] theorem fromWireId_wireId (suite : HybridCipherSuite) :
    fromWireId suite.wireId = some suite := by
  cases suite <;> rfl

@[simp] theorem wireId_inj {a b : HybridCipherSuite} : a.wireId = b.wireId ↔ a = b := by
  cases a <;> cases b <;> decide

end HybridCipherSuite

namespace Layers

open HybridCipherSuite

def suiteKeyLen : HybridCipherSuite → ℕ
  | x25519MlKem512V2 => 800
  | x25519MlKem768V3 => 1184

def suiteCtLen : HybridCipherSuite → ℕ
  | x25519MlKem512V2 => 768
  | x25519MlKem768V3 => 1088

/-- The strongest suite both ends support. -/
def negotiateCipherSuite (ours : List HybridCipherSuite) (remoteWireIds : List UInt8) :
    Option HybridCipherSuite :=
  [x25519MlKem768V3, x25519MlKem512V2].find? fun suite =>
    ours.contains suite && remoteWireIds.contains suite.wireId

/-! ### Legacy and uniform messages

Offer and response differ in the length `n` of their KEM field: a public key of 800 bytes
or a ciphertext of 768. -/

/-- `HandshakeBlob` and `ResponseBlob`. -/
structure Blob (n : ℕ) where
  x25519Pub : Octets 32
  kem : Octets n
  identityPk : Octets 32
  signature : Octets 64
  deriving DecidableEq

abbrev HandshakeBlob := Blob 800

abbrev ResponseBlob := Blob 768

/-- `HANDSHAKE_BLOB_LEN` and `UNIFORM_HANDSHAKE_BLOB_LEN`. -/
def handshakeBlobLen : ℕ := 944

/-- `RESPONSE_BLOB_LEN` and `UNIFORM_RESPONSE_BLOB_LEN`. -/
def responseBlobLen : ℕ := 912

def handshakeMagic : Bytes := utf8 "GHOST_HANDSHAKE_"

def responseMagic : Bytes := utf8 "GHOST_RESPONSE__"

/-- What a legacy message signs: neither its magic nor the identity. -/
def legacyMaterial {n : ℕ} (xPub : Octets 32) (kem : Octets n) : Bytes :=
  xPub.toList ++ kem.toList

/-- What a uniform message signs: all of it up to the signature. -/
def uniformMaterial {n : ℕ} (start : Octets 16) (xPub : Octets 32) (kem : Octets n)
    (identityPk : Octets 32) : Bytes :=
  start.toList ++ (xPub.toList ++ (kem.toList ++ identityPk.toList))

def buildLegacy {n : ℕ} (magic : Bytes) (identityPk : Octets 32)
    (identitySign : Bytes → Octets 64) (xPub : Octets 32) (kem : Octets n) : Bytes :=
  magic ++ (xPub.toList ++ (kem.toList ++ (identityPk.toList ++
    (identitySign (legacyMaterial xPub kem)).toList)))

def buildHandshakePdu (identityPk : Octets 32) (identitySign : Bytes → Octets 64)
    (xPub : Octets 32) (kyberPub : Octets 800) : Bytes :=
  buildLegacy handshakeMagic identityPk identitySign xPub kyberPub

def buildResponsePdu (responderIdentityPk : Octets 32) (responderSign : Bytes → Octets 64)
    (xPub : Octets 32) (ct : Octets 768) : Bytes :=
  buildLegacy responseMagic responderIdentityPk responderSign xPub ct

/-- `build_uniform_handshake_pdu` and `build_uniform_response_pdu`; `start` is the random
prefix the builder draws. -/
def buildUniform {n : ℕ} (start : Octets 16) (identityPk : Octets 32)
    (identitySign : Bytes → Octets 64) (xPub : Octets 32) (kem : Octets n) : Bytes :=
  uniformMaterial start xPub kem identityPk ++
    (identitySign (uniformMaterial start xPub kem identityPk)).toList

/-- The fields of a legacy or uniform message at their offsets. -/
def readBlob (n : ℕ) (data : Bytes) : Option (Blob n) := do
  let x25519Pub ← blockAt data 16 32
  let kem ← blockAt data 48 n
  let identityPk ← blockAt data (48 + n) 32
  let signature ← blockAt data (80 + n) 64
  some { x25519Pub, kem, identityPk, signature }

def parseHandshakePdu (data : Bytes) : Option HandshakeBlob :=
  if data.length < handshakeBlobLen || !handshakeMagic.isPrefixOf data then none
  else readBlob 800 data

def parseResponsePdu (data : Bytes) : Option ResponseBlob :=
  if data.length < responseBlobLen || !responseMagic.isPrefixOf data then none
  else readBlob 768 data

def parseUniformHandshakePdu (data : Bytes) : Option HandshakeBlob :=
  if data.length < handshakeBlobLen then none else readBlob 800 data

def parseUniformResponsePdu (data : Bytes) : Option ResponseBlob :=
  if data.length < responseBlobLen then none else readBlob 768 data

def uniformHandshakeSignedMaterial (data : Bytes) : Option Bytes :=
  if data.length < handshakeBlobLen then none else some (data.take 880)

def uniformResponseSignedMaterial (data : Bytes) : Option Bytes :=
  if data.length < responseBlobLen then none else some (data.take 848)

/-! ### Versioned suite messages

Offer and response differ in the magic and in the KEM length of a suite, `lenOf`. -/

/-- `SuiteHandshakeBlob` and `SuiteResponseBlob`. -/
structure SuiteBlob where
  suite : HybridCipherSuite
  x25519Pub : Octets 32
  kem : Bytes
  identityPk : Octets 32
  signature : Octets 64
  deriving DecidableEq

def handshakeV3Magic : Bytes := utf8 "GHOST_HS_V3_____"

def responseV3Magic : Bytes := utf8 "GHOST_RSP_V3____"

/-- The material of a suite message, which the builders and `handle_pkt` each assemble. -/
def suiteMaterial (suite : HybridCipherSuite) (xPub : Octets 32) (kem : Bytes)
    (identityPk : Octets 32) : Bytes :=
  suite.wireId :: (xPub.toList ++ (kem ++ identityPk.toList))

def buildSuite (magic : Bytes) (lenOf : HybridCipherSuite → ℕ) (suite : HybridCipherSuite)
    (identityPk : Octets 32) (identitySign : Bytes → Octets 64) (xPub : Octets 32)
    (kem : Bytes) : Option Bytes :=
  if kem.length ≠ lenOf suite then none
  else some (magic ++ (suiteMaterial suite xPub kem identityPk ++
    (identitySign (suiteMaterial suite xPub kem identityPk)).toList))

def buildHandshakePduSuite := buildSuite handshakeV3Magic suiteKeyLen

def buildResponsePduSuite := buildSuite responseV3Magic suiteCtLen

def parseSuite (magic : Bytes) (lenOf : HybridCipherSuite → ℕ) (data : Bytes) :
    Option SuiteBlob := do
  if data.length < 16 + 1 + 32 + 32 + 64 || !magic.isPrefixOf data then none
  let suite ← fromWireId (← data[16]?)
  let total := 16 + 1 + 32 + lenOf suite + 32 + 64
  if data.length ≠ total then none
  let x25519Pub ← blockAt data 17 32
  let kem ← sliceAt data 49 (lenOf suite)
  let identityPk ← blockAt data (49 + lenOf suite) 32
  let signature ← blockAt data (49 + lenOf suite + 32) 64
  some { suite, x25519Pub, kem, identityPk, signature }

def parseHandshakePduSuite := parseSuite handshakeV3Magic suiteKeyLen

def parseResponsePduSuite := parseSuite responseV3Magic suiteCtLen

/-! ### The negotiated offer -/

structure NegotiatedHandshakeBlob where
  supported : List HybridCipherSuite
  x25519Pub : Octets 32
  kyberKeys : List (HybridCipherSuite × Bytes)
  identityPk : Octets 32
  pqCommitment : Octets 32
  signature : Octets 64
  deriving DecidableEq

def handshakeNegotiationMagic : Bytes := utf8 "GHOST_HS_NEG_V7_"

def responseNegotiationMagic : Bytes := utf8 "GHOST_RSP_NEG_V7"

/-- One key of an offer, with its suite and its length in front. -/
def keyEntry (suite : HybridCipherSuite) (key : Bytes) : Bytes :=
  suite.wireId :: (toBeBytes 2 key.length ++ key)

/-- The loop of `negotiation_material` over the suites. -/
def keyEntries (kyberKeys : List (HybridCipherSuite × Bytes)) :
    List HybridCipherSuite → Option Bytes
  | [] => some []
  | suite :: rest => do
      let (_, key) ← kyberKeys.find? fun e => e.1 == suite
      if key.length ≠ suiteKeyLen suite then none
      let entries ← keyEntries kyberKeys rest
      some (keyEntry suite key ++ entries)

/-- The entries of the keys, in the order in which they are listed. -/
def entriesOf (kyberKeys : List (HybridCipherSuite × Bytes)) : Bytes :=
  kyberKeys.flatMap fun e => keyEntry e.1 e.2

variable {keys : List (HybridCipherSuite × Bytes)}

theorem find?_fst_of_nodup (hnodup : (keys.map Prod.fst).Nodup) {e : HybridCipherSuite × Bytes}
    (he : e ∈ keys) : keys.find? (fun e' => e'.1 == e.1) = some e := by
  induction keys with
  | nil => cases he
  | cons k keys ih =>
      rw [List.map_cons, List.nodup_cons] at hnodup
      rcases List.mem_cons.mp he with rfl | hmem
      · exact List.find?_cons_of_pos (by simp)
      · have hne : k.1 ≠ e.1 := by
          intro heq
          exact hnodup.1 (heq ▸ List.mem_map_of_mem hmem)
        rw [List.find?_cons_of_neg (by simpa using hne), ih hnodup.2 hmem]

theorem keyEntries_of_nodup (hnodup : (keys.map Prod.fst).Nodup)
    (hlen : ∀ e ∈ keys, e.2.length = suiteKeyLen e.1) :
    keyEntries keys (keys.map Prod.fst) = some (entriesOf keys) := by
  have hsub : ∀ sub : List (HybridCipherSuite × Bytes), sub ⊆ keys →
      keyEntries keys (sub.map Prod.fst) = some (entriesOf sub) := by
    intro sub
    induction sub with
    | nil =>
        intro _
        rfl
    | cons e sub ih =>
        intro hsub
        have he : e ∈ keys := hsub List.mem_cons_self
        rw [List.map_cons, keyEntries, find?_fst_of_nodup hnodup he,
          ih fun a ha => hsub (List.mem_cons_of_mem e ha)]
        simp [hlen e he, entriesOf]
  exact hsub keys (List.Subset.refl keys)

theorem length_entriesOf (hlen : ∀ e ∈ keys, e.2.length = suiteKeyLen e.1) :
    (entriesOf keys).length = ((keys.map Prod.fst).map fun s => 3 + suiteKeyLen s).sum := by
  induction keys with
  | nil => rfl
  | cons e keys ih =>
      have he := hlen e List.mem_cons_self
      have hrest := ih fun e' h' => hlen e' (List.mem_cons_of_mem e h')
      unfold entriesOf at hrest ⊢
      rw [List.flatMap_cons, List.length_append, hrest]
      simp only [keyEntry, List.length_cons, List.length_append, length_toBeBytes, he,
        List.map_cons, List.sum_cons]
      omega

/-- The offer up to its commitment, before the reserved byte. -/
def negotiationFields (supported : List HybridCipherSuite) (xPub : Octets 32) (entries : Bytes)
    (identityPk pqCommitment : Octets 32) : Bytes :=
  handshakeNegotiationMagic ++ (UInt8.ofNat supported.length :: (supported.map wireId ++
    (xPub.toList ++ (entries ++ (identityPk.toList ++ pqCommitment.toList)))))

def negotiationMaterial (supported : List HybridCipherSuite) (xPub : Octets 32)
    (kyberKeys : List (HybridCipherSuite × Bytes)) (identityPk pqCommitment : Octets 32) :
    Option Bytes := do
  if supported.isEmpty || 2 < supported.length || kyberKeys.length ≠ supported.length then none
  let entries ← keyEntries kyberKeys supported
  some (negotiationFields supported xPub entries identityPk pqCommitment ++ [0])

def buildNegotiatedHandshakePdu (supported : List HybridCipherSuite)
    (identityPk pqCommitment : Octets 32) (identitySign : Bytes → Octets 64)
    (xPub : Octets 32) (kyberKeys : List (HybridCipherSuite × Bytes)) : Option Bytes := do
  let material ← negotiationMaterial supported xPub kyberKeys identityPk pqCommitment
  some (material ++ (identitySign material).toList)

/-- The suite list, `count` entries from `pos` on. -/
def parseSupported (data : Bytes) :
    ℕ → ℕ → List HybridCipherSuite → Option (List HybridCipherSuite × ℕ)
  | 0, pos, supported => some (supported, pos)
  | count + 1, pos, supported => do
      let suite ← fromWireId (← data[pos]?)
      if supported.contains suite then none
      parseSupported data count (pos + 1) (supported ++ [suite])

/-- The key list, `count` entries from `pos` on. -/
def parseKyberKeys (data : Bytes) : ℕ → ℕ → List (HybridCipherSuite × Bytes) →
    Option (List (HybridCipherSuite × Bytes) × ℕ)
  | 0, pos, keys => some (keys, pos)
  | count + 1, pos, keys => do
      let suite ← fromWireId (← data[pos]?)
      let len ← sliceAt data (pos + 1) 2
      let len := fromBeBytes len
      if len ≠ suiteKeyLen suite || keys.any (fun e => e.1 == suite) then none
      let key ← sliceAt data (pos + 3) len
      parseKyberKeys data count (pos + 3 + len) (keys ++ [(suite, key)])

/-- Where the signature starts: after a reserved zero byte, or at once. -/
def signatureAt (data : Bytes) (len : ℕ) (allowReserved : Bool) (pos : ℕ) : Option ℕ :=
  if pos < len && data[pos]? = some 0 then
    if !allowReserved || len ≠ pos + 1 + 64 then none else some (pos + 1)
  else if len ≠ pos + 64 then none
  else some pos

/-- The closure `try_parse` of `parse_negotiated_handshake_pdu`. -/
def tryParse (data : Bytes) (len : ℕ) (allowReserved : Bool) :
    Option NegotiatedHandshakeBlob := do
  let reserved := if allowReserved then 1 else 0
  if len < 16 + 1 + 32 + 32 + 32 + 64 + reserved ||
      !handshakeNegotiationMagic.isPrefixOf data then none
  let count ← (data[16]?).map UInt8.toNat
  if count = 0 || 2 < count || len ≤ 17 + 32 + 32 + 64 + reserved then none
  let (supported, pos) ← parseSupported data count 17 []
  let x25519Pub ← blockAt data pos 32
  let (kyberKeys, pos) ← parseKyberKeys data count (pos + 32) []
  let identityPk ← blockAt data pos 32
  let pqCommitment ← blockAt data (pos + 32) 32
  let pos ← signatureAt data len allowReserved (pos + 64)
  let signature ← blockAt data pos 64
  if pos + 64 ≠ len || kyberKeys.map Prod.fst ≠ supported then none
  some { supported, x25519Pub, kyberKeys, identityPk, pqCommitment, signature }

def parseNegotiatedHandshakePdu (data : Bytes) : Option NegotiatedHandshakeBlob :=
  match tryParse data data.length true with
  | some blob => some blob
  | none =>
    match tryParse data data.length false with
    | some blob => some blob
    | none =>
      if data.length % 2 = 0 && data.getLast? = some 0 && 1 < data.length then
        tryParse data (data.length - 1) false
      else none

/-! ### The negotiated response -/

structure NegotiatedResponseBlob where
  suite : HybridCipherSuite
  x25519Pub : Octets 32
  kyberCt : Bytes
  identityPk : Octets 32
  pqCommitment : Octets 32
  signature : Octets 64
  deriving DecidableEq

def responseFields (suite : HybridCipherSuite) (xPub : Octets 32) (kyberCt : Bytes)
    (identityPk pqCommitment : Octets 32) : Bytes :=
  responseNegotiationMagic ++ (suite.wireId :: (xPub.toList ++ (kyberCt ++
    (identityPk.toList ++ pqCommitment.toList))))

def responseMaterial (suite : HybridCipherSuite) (xPub : Octets 32) (kyberCt : Bytes)
    (identityPk pqCommitment : Octets 32) : Option Bytes :=
  if kyberCt.length ≠ suiteCtLen suite then none
  else some (responseFields suite xPub kyberCt identityPk pqCommitment)

def buildNegotiatedResponsePdu (suite : HybridCipherSuite) (identityPk pqCommitment : Octets 32)
    (identitySign : Bytes → Octets 64) (xPub : Octets 32) (ct : Bytes) : Option Bytes := do
  let out ← responseMaterial suite xPub ct identityPk pqCommitment
  some (out ++ (identitySign out).toList)

def negotiatedResponseLen (suite : HybridCipherSuite) : ℕ :=
  16 + 1 + 32 + suiteCtLen suite + 32 + 32 + 64

def parseNegotiatedResponsePdu (data : Bytes) : Option NegotiatedResponseBlob := do
  if data.length < 16 + 1 + 32 + 32 + 32 + 64 ||
      !responseNegotiationMagic.isPrefixOf data then none
  let suite ← fromWireId (← data[16]?)
  let ctLen := suiteCtLen suite
  let total := negotiatedResponseLen suite
  if data.length < total || total + 1 < data.length then none
  let x25519Pub ← blockAt data 17 32
  let kyberCt ← sliceAt data 49 ctLen
  let identityPk ← blockAt data (49 + ctLen) 32
  let pqCommitment ← blockAt data (49 + ctLen + 32) 32
  let signature ← blockAt data (49 + ctLen + 64) 64
  some { suite, x25519Pub, kyberCt, identityPk, pqCommitment, signature }

end Layers

end Vantablack
