import Vantablack.Handshake.Dispatch
import Vantablack.Handshake.Parsers
import Vantablack.Handshake.SignedMaterial
import Vantablack.Receive.Spool

/-!
Handshake messages from end to end: built and signed by one node, cut into shards, put
together from any two of them by another node's spool, recognised by a branch of its
`handle_pkt` and parsed there. The question is whether the fields come back and whether the
receiver verifies the signature over the bytes that were signed.

The shard layer appends a zero byte to an odd length. The versioned suite messages are of
odd length and their parser asks for an exact one, so none of them arrives.
-/

namespace Vantablack.Handshake

open Lib Layers Receive HybridCipherSuite List

/-- The arguments of the builders. A uniform message also has the random start its builder
draws. `reserved` tells the negotiated offer of today from the one of older builds, which
has no reserved byte and which the parser still accepts. -/
inductive Pdu where
  | offer (xPub : Octets 32) (kyberPub : Octets 800)
  | response (xPub : Octets 32) (ct : Octets 768)
  | uniformOffer (start : Octets 16) (xPub : Octets 32) (kyberPub : Octets 800)
  | uniformResponse (start : Octets 16) (xPub : Octets 32) (ct : Octets 768)
  | suiteOffer (suite : HybridCipherSuite) (xPub : Octets 32) (kyberPub : Bytes)
  | suiteResponse (suite : HybridCipherSuite) (xPub : Octets 32) (ct : Bytes)
  | negotiatedOffer (reserved : Bool) (supported : List HybridCipherSuite) (xPub : Octets 32)
      (kyberKeys : List (HybridCipherSuite × Bytes)) (pqCommitment : Octets 32)
  | negotiatedResponse (suite : HybridCipherSuite) (xPub : Octets 32) (ct : Bytes)
      (pqCommitment : Octets 32)

namespace Pdu

def counter : Pdu → ℕ
  | offer .. | uniformOffer .. | suiteOffer .. | negotiatedOffer .. => 0
  | response .. | uniformResponse .. | suiteResponse .. | negotiatedResponse .. => 1

/-- What the node with identity `me` signs. -/
def signed (me : Octets 32) : Pdu → Option Bytes
  | offer xPub kyberPub => some (legacyMaterial xPub kyberPub)
  | response xPub ct => some (legacyMaterial xPub ct)
  | uniformOffer start xPub kyberPub => some (uniformMaterial start xPub kyberPub me)
  | uniformResponse start xPub ct => some (uniformMaterial start xPub ct me)
  | suiteOffer suite xPub kyberPub => some (suiteMaterial suite xPub kyberPub me)
  | suiteResponse suite xPub ct => some (suiteMaterial suite xPub ct me)
  | negotiatedOffer true supported xPub kyberKeys pqCommitment =>
      negotiationMaterial supported xPub kyberKeys me pqCommitment
  | negotiatedOffer false supported xPub kyberKeys pqCommitment =>
      (negotiationMaterial supported xPub kyberKeys me pqCommitment).map dropLast
  | negotiatedResponse suite xPub ct pqCommitment =>
      responseMaterial suite xPub ct me pqCommitment

/-- The message as it is built, if the builder accepts its arguments. -/
def build (me : Octets 32) (sign : Bytes → Octets 64) : Pdu → Option Bytes
  | offer xPub kyberPub => some (buildHandshakePdu me sign xPub kyberPub)
  | response xPub ct => some (buildResponsePdu me sign xPub ct)
  | uniformOffer start xPub kyberPub => some (buildUniform start me sign xPub kyberPub)
  | uniformResponse start xPub ct => some (buildUniform start me sign xPub ct)
  | suiteOffer suite xPub kyberPub => buildHandshakePduSuite suite me sign xPub kyberPub
  | suiteResponse suite xPub ct => buildResponsePduSuite suite me sign xPub ct
  | negotiatedOffer true supported xPub kyberKeys pqCommitment =>
      buildNegotiatedHandshakePdu supported me pqCommitment sign xPub kyberKeys
  | negotiatedOffer false supported xPub kyberKeys pqCommitment => do
      let material ← negotiationMaterial supported xPub kyberKeys me pqCommitment
      some (material.dropLast ++ (sign material.dropLast).toList)
  | negotiatedResponse suite xPub ct pqCommitment =>
      buildNegotiatedResponsePdu suite me pqCommitment sign xPub ct

/-- The message with the fields that were put in. -/
def message (me : Octets 32) (signature : Octets 64) : Pdu → Message
  | offer xPub kyberPub =>
      .offer { x25519Pub := xPub, kem := kyberPub, identityPk := me, signature := signature }
  | response xPub ct =>
      .response { x25519Pub := xPub, kem := ct, identityPk := me, signature := signature }
  | uniformOffer _ xPub kyberPub =>
      .uniformOffer { x25519Pub := xPub, kem := kyberPub, identityPk := me, signature := signature }
  | uniformResponse _ xPub ct =>
      .uniformResponse { x25519Pub := xPub, kem := ct, identityPk := me, signature := signature }
  | suiteOffer suite xPub kyberPub =>
      .suiteOffer { suite := suite, x25519Pub := xPub, kem := kyberPub, identityPk := me,
                    signature := signature }
  | suiteResponse suite xPub ct =>
      .suiteResponse { suite := suite, x25519Pub := xPub, kem := ct, identityPk := me,
                       signature := signature }
  | negotiatedOffer _ supported xPub kyberKeys pqCommitment =>
      .negotiatedOffer { supported := supported, x25519Pub := xPub, kyberKeys := kyberKeys,
                         identityPk := me, pqCommitment := pqCommitment, signature := signature }
  | negotiatedResponse suite xPub ct pqCommitment =>
      .negotiatedResponse { suite := suite, x25519Pub := xPub, kyberCt := ct, identityPk := me,
                            pqCommitment := pqCommitment, signature := signature }

/-- Which messages get through: `uniform` is the receiver's `GHOST_HANDSHAKE_UNIFORM`. -/
def Arrives (uniform : Bool) : Pdu → Prop
  | offer .. | response .. => uniform = false
  | uniformOffer start _ _ =>
      uniform = true ∧ start.toList ≠ handshakeNegotiationMagic ∧
        start.toList ≠ handshakeV3Magic
  | uniformResponse start _ _ =>
      uniform = true ∧ start.toList ≠ beaconPrefix ∧
        start.toList ≠ responseNegotiationMagic ∧ start.toList ≠ responseV3Magic
  | suiteOffer .. | suiteResponse .. => False
  | negotiatedOffer reserved supported _ kyberKeys _ =>
      reserved = true ∧ supported.Nodup ∧ kyberKeys.map Prod.fst = supported
  | negotiatedResponse .. => True

end Pdu

/-! ### The branch of a message -/

def Message.branch : Message → Branch
  | negotiatedOffer _ => .negotiatedOffer
  | suiteOffer _ => .suiteOffer
  | uniformOffer _ => .uniformOffer
  | offer _ => .offer
  | negotiatedResponse _ => .negotiatedResponse
  | suiteResponse _ => .suiteResponse
  | uniformResponse _ => .uniformResponse
  | response _ => .response

variable {data : Bytes}

theorem branch_of_parse {b : Branch} {m : Message} {material : Bytes}
    (h : b.parse data = some (m, material)) : m.branch = b := by
  cases b <;> simp only [Branch.parse, Option.bind_eq_bind, Option.bind_eq_some_iff] at h
  case offer | response =>
    split at h
    · cases h
    · rw [Option.bind_eq_some_iff] at h
      obtain ⟨_, _, h⟩ := h
      cases h
      rfl
  case uniformOffer | uniformResponse =>
    obtain ⟨_, _, _, _, h⟩ := h
    cases h
    rfl
  case beacon | application => cases h
  all_goals
    obtain ⟨_, _, h⟩ := h
    cases h
    rfl

theorem branch_of_receive {uniform : Bool} {ctr : ℕ} {m : Message} {material : Bytes}
    (h : receive uniform ctr data = some (m, material)) : branchOf uniform ctr data = m.branch :=
  (branch_of_parse h).symm

theorem receive_iff {uniform : Bool} {ctr : ℕ} {m : Message} {material : Bytes}
    (hparse : m.branch.parse data = some (m, material)) :
    receive uniform ctr data = some (m, material) ↔ branchOf uniform ctr data = m.branch := by
  constructor
  · exact branch_of_receive
  · intro h
    rw [receive, h, hparse]

theorem branchOf_append {uniform : Bool} {ctr : ℕ} {start rest : Bytes} (h : start.length = 16) :
    branchOf uniform ctr (start ++ rest) =
      if ctr = 0 ∧ start = handshakeNegotiationMagic then .negotiatedOffer
      else if ctr = 0 ∧ start = handshakeV3Magic then .suiteOffer
      else if uniform ∧ ctr = 0 ∧ 928 ≤ rest.length then .uniformOffer
      else if 96 ≤ rest.length ∧ start = beaconPrefix then .beacon
      else if ctr = 0 ∧ start = handshakeMagic then .offer
      else if ctr = 1 ∧ start = responseNegotiationMagic then .negotiatedResponse
      else if ctr = 1 ∧ start = responseV3Magic then .suiteResponse
      else if uniform ∧ ctr = 1 ∧ 896 ≤ rest.length then .uniformResponse
      else if ctr = 1 ∧ start = responseMagic then .response
      else .application := by
  have hmagic : ∀ {magic : Bytes}, magic.length = 16 →
      magic.isPrefixOf (start ++ rest) = decide (start = magic) := fun hm =>
    isPrefixOf_append_eq (hm.trans h.symm)
  have hlong : handshakeBlobLen ≤ (start ++ rest).length ↔ 928 ≤ rest.length := by
    rw [length_append, h, handshakeBlobLen]
    omega
  have hlong' : responseBlobLen ≤ (start ++ rest).length ↔ 896 ≤ rest.length := by
    rw [length_append, h, responseBlobLen]
    omega
  have hbeacon : 112 ≤ (start ++ rest).length ↔ 96 ≤ rest.length := by
    rw [length_append, h]
    omega
  have h1 : handshakeNegotiationMagic.length = 16 := by decide
  have h2 : handshakeV3Magic.length = 16 := by decide
  have h3 : beaconPrefix.length = 16 := by decide
  have h4 : handshakeMagic.length = 16 := by decide
  have h5 : responseNegotiationMagic.length = 16 := by decide
  have h6 : responseV3Magic.length = 16 := by decide
  have h7 : responseMagic.length = 16 := by decide
  simp only [branchOf, hmagic h1, hmagic h2, hmagic h3, hmagic h4, hmagic h5, hmagic h6,
    hmagic h7, hlong, hlong', hbeacon, Bool.and_eq_true, decide_eq_true_eq, and_assoc]

theorem padded_of_even (h : data.length % 2 = 0) : padded data = data :=
  if_neg (by omega)

theorem padded_of_odd (h : data.length % 2 = 1) : padded data = data ++ [0] :=
  if_pos (by omega)

section Kinds

variable (uniform : Bool) (me : Octets 32) (sign : Bytes → Octets 64) {n : ℕ}

/-! ### Legacy messages -/

variable {magic : Bytes}

theorem length_buildLegacy (hmagic : magic.length = 16) (xPub : Octets 32) (kem : Octets n) :
    (buildLegacy magic me sign xPub kem).length = 144 + n := by
  simp only [buildLegacy, length_append, hmagic, List.Vector.toList_length]
  omega

theorem readBlob_buildLegacy (hmagic : magic.length = 16) (xPub : Octets 32) (kem : Octets n) :
    readBlob n (buildLegacy magic me sign xPub kem) =
      some { x25519Pub := xPub, kem := kem, identityPk := me,
             signature := sign (legacyMaterial xPub kem) } := by
  rw [buildLegacy, ← append_nil (List.Vector.toList (sign _))]
  exact readBlob_eq hmagic xPub kem me _

theorem receive_offer_iff (xPub : Octets 32) (kyberPub : Octets 800) :
    receive uniform 0 (buildHandshakePdu me sign xPub kyberPub) =
      some (.offer { x25519Pub := xPub, kem := kyberPub, identityPk := me,
                     signature := sign (legacyMaterial xPub kyberPub) },
        legacyMaterial xPub kyberPub) ↔ uniform = false := by
  have hmagic : handshakeMagic.length = 16 := by decide
  have hlen := length_buildLegacy me sign hmagic xPub kyberPub
  have hprefix : handshakeMagic.isPrefixOf (buildHandshakePdu me sign xPub kyberPub) = true :=
    isPrefixOf_append
  have hread := readBlob_buildLegacy me sign hmagic xPub kyberPub
  rw [← buildHandshakePdu] at hlen hread
  rw [receive_iff]
  · rw [buildHandshakePdu, buildLegacy, branchOf_append hmagic]
    cases uniform <;> simp [Message.branch] <;> decide
  · simp only [Message.branch, Branch.parse, parseHandshakePdu, handshakeBlobLen, hlen, hprefix,
      hread, take_of_length_le hlen.le]
    simp [legacyMaterial]

theorem receive_response_iff (xPub : Octets 32) (ct : Octets 768) :
    receive uniform 1 (buildResponsePdu me sign xPub ct) =
      some (.response { x25519Pub := xPub, kem := ct, identityPk := me,
                        signature := sign (legacyMaterial xPub ct) },
        legacyMaterial xPub ct) ↔ uniform = false := by
  have hmagic : responseMagic.length = 16 := by decide
  have hlen := length_buildLegacy me sign hmagic xPub ct
  have hprefix : responseMagic.isPrefixOf (buildResponsePdu me sign xPub ct) = true :=
    isPrefixOf_append
  have hread := readBlob_buildLegacy me sign hmagic xPub ct
  rw [← buildResponsePdu] at hlen hread
  rw [receive_iff]
  · rw [buildResponsePdu, buildLegacy, branchOf_append hmagic]
    cases uniform <;> simp [Message.branch] <;> decide
  · simp only [Message.branch, Branch.parse, parseResponsePdu, responseBlobLen, hlen, hprefix,
      hread, take_of_length_le hlen.le]
    simp [legacyMaterial]

/-! ### Uniform messages -/

variable (start : Octets 16)

theorem length_uniformMaterial (xPub : Octets 32) (kem : Octets n) :
    (uniformMaterial start xPub kem me).length = 80 + n := by
  simp only [uniformMaterial, length_append, List.Vector.toList_length]
  omega

theorem length_buildUniform (xPub : Octets 32) (kem : Octets n) :
    (buildUniform start me sign xPub kem).length = 144 + n := by
  rw [buildUniform, length_append, length_uniformMaterial, List.Vector.toList_length]
  omega

theorem readBlob_buildUniform (xPub : Octets 32) (kem : Octets n) :
    readBlob n (buildUniform start me sign xPub kem) =
      some { x25519Pub := xPub, kem := kem, identityPk := me,
             signature := sign (uniformMaterial start xPub kem me) } := by
  rw [buildUniform, ← append_nil (List.Vector.toList (sign _)), uniformMaterial]
  simp only [append_assoc]
  exact readBlob_eq start.toList_length xPub kem me _

theorem buildUniform_split (xPub : Octets 32) (kem : Octets n) :
    ∃ rest : Bytes, buildUniform start me sign xPub kem = start.toList ++ rest ∧
      rest.length = 128 + n := by
  refine ⟨xPub.toList ++ (kem.toList ++ (me.toList ++
    (sign (uniformMaterial start xPub kem me)).toList)), ?_, ?_⟩
  · rw [buildUniform]
    nth_rewrite 1 [uniformMaterial]
    simp only [append_assoc]
  · simp only [length_append, List.Vector.toList_length]
    omega

theorem receive_uniformOffer_iff (xPub : Octets 32) (kyberPub : Octets 800) :
    receive uniform 0 (buildUniform start me sign xPub kyberPub) =
      some (.uniformOffer { x25519Pub := xPub, kem := kyberPub, identityPk := me,
                            signature := sign (uniformMaterial start xPub kyberPub me) },
        uniformMaterial start xPub kyberPub me) ↔
      uniform = true ∧ start.toList ≠ handshakeNegotiationMagic ∧
        start.toList ≠ handshakeV3Magic := by
  have hlen := length_buildUniform me sign start xPub kyberPub
  have hread := readBlob_buildUniform me sign start xPub kyberPub
  have hmaterial : (buildUniform start me sign xPub kyberPub).take 880 =
      uniformMaterial start xPub kyberPub me :=
    take_left' (length_uniformMaterial me start xPub kyberPub)
  rw [receive_iff]
  · obtain ⟨rest, hsplit, hrest⟩ := buildUniform_split me sign start xPub kyberPub
    rw [hsplit, branchOf_append start.toList_length]
    cases uniform <;> simp [hrest, Message.branch] <;> split_ifs <;> simp_all
  · simp only [Message.branch, Branch.parse, parseUniformHandshakePdu,
      uniformHandshakeSignedMaterial, handshakeBlobLen, take_of_length_le hlen.le, hlen,
      hread, hmaterial]
    simp

theorem receive_uniformResponse_iff (xPub : Octets 32) (ct : Octets 768) :
    receive uniform 1 (buildUniform start me sign xPub ct) =
      some (.uniformResponse { x25519Pub := xPub, kem := ct, identityPk := me,
                               signature := sign (uniformMaterial start xPub ct me) },
        uniformMaterial start xPub ct me) ↔
      uniform = true ∧ start.toList ≠ beaconPrefix ∧
        start.toList ≠ responseNegotiationMagic ∧ start.toList ≠ responseV3Magic := by
  have hlen := length_buildUniform me sign start xPub ct
  have hread := readBlob_buildUniform me sign start xPub ct
  have hmaterial : (buildUniform start me sign xPub ct).take 848 =
      uniformMaterial start xPub ct me :=
    take_left' (length_uniformMaterial me start xPub ct)
  rw [receive_iff]
  · obtain ⟨rest, hsplit, hrest⟩ := buildUniform_split me sign start xPub ct
    rw [hsplit, branchOf_append start.toList_length]
    cases uniform <;> simp [hrest, Message.branch] <;> split_ifs <;> simp_all
  · simp only [Message.branch, Branch.parse, parseUniformResponsePdu,
      uniformResponseSignedMaterial, responseBlobLen, take_of_length_le hlen.le, hlen,
      hread, hmaterial]
    simp

/-! ### Versioned suite messages -/

variable {suite : HybridCipherSuite} {bytes : Bytes}

theorem buildSuite_eq_some {lenOf : HybridCipherSuite → ℕ} {xPub : Octets 32} {kem : Bytes}
    (h : buildSuite magic lenOf suite me sign xPub kem = some bytes) :
    kem.length = lenOf suite ∧ bytes = magic ++ (suiteMaterial suite xPub kem me ++
      (sign (suiteMaterial suite xPub kem me)).toList) := by
  unfold buildSuite at h
  split at h
  · cases h
  · rename_i hlen
    cases h
    exact ⟨not_ne_iff.mp hlen, rfl⟩

theorem padded_buildSuite (hmagic : magic.length = 16) {lenOf : HybridCipherSuite → ℕ}
    (heven : ∀ s, lenOf s % 2 = 0) {xPub : Octets 32} {kem : Bytes}
    (h : buildSuite magic lenOf suite me sign xPub kem = some bytes) :
    padded bytes = bytes ++ [0] := by
  obtain ⟨hkem, rfl⟩ := buildSuite_eq_some me sign h
  have hs := heven suite
  refine padded_of_odd ?_
  simp only [suiteMaterial, length_append, length_cons, hmagic, hkem,
    List.Vector.toList_length]
  omega

theorem receive_suiteOffer {xPub : Octets 32} {kyberPub : Bytes}
    (h : buildHandshakePduSuite suite me sign xPub kyberPub = some bytes) :
    receive uniform 0 (padded bytes) = none := by
  have hmagic : handshakeV3Magic.length = 16 := by decide
  have heven : ∀ s, suiteKeyLen s % 2 = 0 := by
    intro s
    cases s <;> rfl
  rw [padded_buildSuite me sign hmagic heven h]
  obtain ⟨hkem, rfl⟩ := buildSuite_eq_some me sign h
  have hbranch : branchOf uniform 0 ((handshakeV3Magic ++ (suiteMaterial suite xPub kyberPub me ++
      (sign (suiteMaterial suite xPub kyberPub me)).toList)) ++ [0]) = .suiteOffer := by
    rw [append_assoc, branchOf_append hmagic]
    rw [if_neg (by decide), if_pos ⟨rfl, rfl⟩]
  rw [receive, hbranch]
  simp only [Branch.parse, parseHandshakePduSuite, parseSuite_pad hmagic xPub hkem me]
  rfl

theorem sendThrough_suiteOffer {rs : ReedSolomon} (hrs : rs.Lawful) (key : SpoolKey)
    (suite : HybridCipherSuite) (xPub : Octets 32) {kyberPub : Bytes}
    (hky : kyberPub.length = suiteKeyLen suite) {i j : Fin 3} (hij : i ≠ j) :
    ∃ bytes, buildHandshakePduSuite suite me sign xPub kyberPub = some bytes ∧
      ∀ uniform, (sendThrough rs key bytes i j).bind (receive uniform 0) = none := by
  have hbuild : buildHandshakePduSuite suite me sign xPub kyberPub =
      some (handshakeV3Magic ++ (suiteMaterial suite xPub kyberPub me ++
        (sign (suiteMaterial suite xPub kyberPub me)).toList)) := if_neg (not_not_intro hky)
  refine ⟨_, hbuild, fun uniform => ?_⟩
  rw [sendThrough_eq hrs key (append_ne_nil_of_left_ne_nil (by decide) _) hij,
    Option.bind_some, receive_suiteOffer uniform me sign hbuild]

theorem receive_suiteResponse {xPub : Octets 32} {ct : Bytes}
    (h : buildResponsePduSuite suite me sign xPub ct = some bytes) :
    receive uniform 1 (padded bytes) = none := by
  have hmagic : responseV3Magic.length = 16 := by decide
  have heven : ∀ s, suiteCtLen s % 2 = 0 := by
    intro s
    cases s <;> rfl
  rw [padded_buildSuite me sign hmagic heven h]
  obtain ⟨hct, rfl⟩ := buildSuite_eq_some me sign h
  have hbranch : branchOf uniform 1 ((responseV3Magic ++ (suiteMaterial suite xPub ct me ++
      (sign (suiteMaterial suite xPub ct me)).toList)) ++ [0]) = .suiteResponse := by
    have hbeacon : responseV3Magic ≠ beaconPrefix := by decide
    have hnegotiated : responseV3Magic ≠ responseNegotiationMagic := by decide
    rw [append_assoc, branchOf_append hmagic]
    simp [hbeacon, hnegotiated]
  rw [receive, hbranch]
  simp only [Branch.parse, parseResponsePduSuite, parseSuite_pad hmagic xPub hct me]
  rfl

/-! ### Negotiated messages -/

variable {supported : List HybridCipherSuite} {kyberKeys : List (HybridCipherSuite × Bytes)}
  {pqCommitment : Octets 32} {material : Bytes}

theorem negotiationMaterial_eq_some {xPub : Octets 32}
    (h : negotiationMaterial supported xPub kyberKeys me pqCommitment = some material) :
    supported ≠ [] ∧ supported.length ≤ 2 ∧ kyberKeys.length = supported.length ∧
      ∃ found : List (HybridCipherSuite × Bytes), found.map Prod.fst = supported ∧
        (∀ e ∈ found, e.2.length = suiteKeyLen e.1) ∧ found ⊆ kyberKeys ∧
        material = negotiationFields supported xPub (entriesOf found) me pqCommitment ++ [0] := by
  unfold negotiationMaterial at h
  split at h
  · cases h
  · rename_i hguard
    simp only [Bool.or_eq_true, List.isEmpty_iff, decide_eq_true_eq, not_or, not_lt,
      not_ne_iff] at hguard
    obtain ⟨⟨hne, htwo⟩, hcount⟩ := hguard
    cases hentries : keyEntries kyberKeys supported with
    | none =>
        rw [hentries] at h
        cases h
    | some entries =>
        rw [hentries] at h
        obtain ⟨found, hmap, rfl, hlen, hsub⟩ := keyEntries_eq_some hentries
        cases h
        exact ⟨hne, htwo, hcount, found, hmap, hlen, hsub, rfl⟩

theorem found_eq_iff {found : List (HybridCipherSuite × Bytes)}
    (hmap : found.map Prod.fst = supported) (hsub : found ⊆ kyberKeys) (hnodup : supported.Nodup) :
    found = kyberKeys ↔ kyberKeys.map Prod.fst = supported := by
  constructor
  · rintro rfl
    exact hmap
  · intro hkeys
    have hinj := inj_on_of_nodup_map (hkeys ▸ hnodup : (kyberKeys.map Prod.fst).Nodup)
    have hlen : found.length = kyberKeys.length := by
      simpa using congrArg length (hmap.trans hkeys.symm)
    refine ext_getElem hlen fun i hi hi' => ?_
    refine hinj (hsub (getElem_mem hi)) (getElem_mem hi') ?_
    have hfst : (found.map Prod.fst)[i]? = (kyberKeys.map Prod.fst)[i]? := by rw [hmap, hkeys]
    rw [getElem?_map, getElem?_map, getElem?_eq_getElem hi,
      getElem?_eq_getElem hi'] at hfst
    simpa using hfst

theorem branchOf_negotiationFields {xPub : Octets 32} {entries tail : Bytes} :
    branchOf uniform 0 (negotiationFields supported xPub entries me pqCommitment ++ tail) =
      .negotiatedOffer := by
  have hmagic : handshakeNegotiationMagic.length = 16 := by decide
  rw [negotiationFields, append_assoc, branchOf_append hmagic, if_pos ⟨rfl, rfl⟩]

theorem receive_negotiatedOffer_iff {xPub : Octets 32}
    (h : negotiationMaterial supported xPub kyberKeys me pqCommitment = some material) :
    receive uniform 0 (padded (material ++ (sign material).toList)) =
      some (.negotiatedOffer
          { supported := supported, x25519Pub := xPub, kyberKeys := kyberKeys,
            identityPk := me, pqCommitment := pqCommitment, signature := sign material },
        material) ↔ supported.Nodup ∧ kyberKeys.map Prod.fst = supported := by
  obtain ⟨hne, htwo, _, found, hmap, hlen, hsub, rfl⟩ := negotiationMaterial_eq_some me h
  have hodd := length_negotiationFields_odd xPub me pqCommitment hmap hlen
  have hparse := parseNegotiatedHandshakePdu_eq xPub me pqCommitment hne htwo hmap hlen
    (sign (negotiationFields supported xPub (entriesOf found) me pqCommitment ++ [0]))
  rw [padded_of_even]
  · have htake : ∀ {a : Bytes} {b : Octets 64},
        (a ++ b.toList).take ((a ++ b.toList).length - 64) = a := by
      intro a b
      rw [length_append, b.toList_length, Nat.add_sub_cancel]
      exact take_left' rfl
    have hbranch : ∀ b : Octets 64, branchOf uniform 0
        (negotiationFields supported xPub (entriesOf found) me pqCommitment ++ [0] ++ b.toList) =
          .negotiatedOffer := by
      intro b
      rw [append_assoc, branchOf_negotiationFields]
    rw [receive, hbranch]
    simp only [Branch.parse, hparse, htake]
    by_cases hnodup : supported.Nodup
    · have hkeys := found_eq_iff hmap hsub hnodup
      simp [hnodup, hkeys]
    · simp [hnodup]
  · rw [length_append, length_append, List.Vector.toList_length]
    simp only [length_singleton]
    omega

theorem receive_negotiatedOffer (o : NegotiatedOffer)
    (h : negotiationMaterial o.supported o.x25519Pub o.kyberKeys me o.pqCommitment =
      some material) :
    receive uniform 0 (material ++ (sign material).toList) =
      some (.negotiatedOffer
          { supported := o.supported, x25519Pub := o.x25519Pub, kyberKeys := o.kyberKeys,
            identityPk := me, pqCommitment := o.pqCommitment, signature := sign material },
        material) := by
  have heven : (material ++ (sign material).toList).length % 2 = 0 := by
    obtain ⟨_, _, _, found, hmap, hlen, _, rfl⟩ := negotiationMaterial_eq_some me h
    have hodd := length_negotiationFields_odd o.x25519Pub me o.pqCommitment hmap hlen
    rw [length_append, length_append, List.Vector.toList_length, length_singleton]
    omega
  have hiff := receive_negotiatedOffer_iff uniform me sign h
  rw [padded_of_even heven] at hiff
  exact hiff.mpr ⟨o.supported_nodup, o.keys_in_order⟩

theorem receive_old_negotiatedOffer {xPub : Octets 32}
    (h : negotiationMaterial supported xPub kyberKeys me pqCommitment = some material)
    (m : Message) :
    receive uniform 0 (padded (material.dropLast ++ (sign material.dropLast).toList)) ≠
      some (m, material.dropLast) := by
  obtain ⟨_, _, _, found, hmap, hlen, _, rfl⟩ := negotiationMaterial_eq_some me h
  have hodd := length_negotiationFields_odd xPub me pqCommitment hmap hlen
  rw [dropLast_concat, padded_of_odd, append_assoc]
  · intro hreceive
    rw [receive, branchOf_negotiationFields] at hreceive
    simp only [Branch.parse, Option.bind_eq_bind, Option.bind_eq_some_iff] at hreceive
    obtain ⟨hs, _, hpair⟩ := hreceive
    have hbytes := congrArg (fun x => x.2.length) (Option.some.inj hpair)
    simp only [length_take, length_append, List.Vector.toList_length,
      length_singleton] at hbytes
    omega
  · rw [length_append, List.Vector.toList_length]
    omega

theorem receive_negotiatedResponse {xPub : Octets 32} {ct : Bytes}
    (hct : ct.length = suiteCtLen suite) :
    receive uniform 1 (padded (responseFields suite xPub ct me pqCommitment ++
      (sign (responseFields suite xPub ct me pqCommitment)).toList)) =
      some (.negotiatedResponse
          { suite := suite, x25519Pub := xPub, kyberCt := ct, identityPk := me,
            pqCommitment := pqCommitment,
            signature := sign (responseFields suite xPub ct me pqCommitment) },
        responseFields suite xPub ct me pqCommitment) := by
  have hmagic : responseNegotiationMagic.length = 16 := by decide
  have hbeacon : responseNegotiationMagic ≠ beaconPrefix := by decide
  have hfields : (responseFields suite xPub ct me pqCommitment).length =
      negotiatedResponseLen suite - 64 := length_responseFields hct
  have hodd : (responseFields suite xPub ct me pqCommitment).length % 2 = 1 := by
    rw [hfields]
    cases suite <;> rfl
  have hparse := parseNegotiatedResponsePdu_eq xPub hct me pqCommitment
    (sign (responseFields suite xPub ct me pqCommitment)) (show [(0 : UInt8)].length ≤ 1 from le_rfl)
  have hbranch : ∀ tail, branchOf uniform 1 (responseFields suite xPub ct me pqCommitment ++ tail) =
      .negotiatedResponse := by
    intro tail
    rw [responseFields, append_assoc, branchOf_append hmagic]
    simp [hbeacon]
  rw [padded_of_odd, append_assoc, receive, hbranch]
  · simp only [Branch.parse, hparse, Option.bind_eq_bind, Option.bind_some, ← hfields,
      take_left]
  · rw [length_append, List.Vector.toList_length]
    omega

theorem Pdu.ne_nil_of_build {p : Pdu} (h : p.build me sign = some bytes) : bytes ≠ [] := by
  have hsigned : ∀ (front : Bytes) (sig : Octets 64), front ++ sig.toList ≠ [] := by
    intro front sig
    refine append_ne_nil_of_right_ne_nil _ (ne_nil_of_length_pos ?_)
    rw [sig.toList_length]
    decide
  cases p with
  | offer xPub kyberPub =>
      cases h
      refine ne_nil_of_length_pos ?_
      rw [buildHandshakePdu, length_buildLegacy me sign (by decide) xPub kyberPub]
      omega
  | response xPub ct =>
      cases h
      refine ne_nil_of_length_pos ?_
      rw [buildResponsePdu, length_buildLegacy me sign (by decide) xPub ct]
      omega
  | uniformOffer start xPub kem | uniformResponse start xPub kem =>
      cases h
      refine ne_nil_of_length_pos ?_
      rw [length_buildUniform me sign start xPub kem]
      omega
  | suiteOffer suite xPub kem | suiteResponse suite xPub kem =>
      obtain ⟨_, rfl⟩ := buildSuite_eq_some me sign h
      rw [← append_assoc]
      exact hsigned _ _
  | negotiatedOffer reserved supported xPub kyberKeys pqCommitment =>
      cases reserved <;>
      · obtain ⟨material, _, hbytes⟩ := Option.bind_eq_some_iff.mp h
        cases hbytes
        exact hsigned _ _
  | negotiatedResponse suite xPub ct pqCommitment =>
      obtain ⟨material, _, hbytes⟩ := Option.bind_eq_some_iff.mp h
      cases hbytes
      exact hsigned _ _

theorem receive_negotiatedOffer_pdu_iff {reserved : Bool} {xPub : Octets 32}
    (h : (Pdu.negotiatedOffer reserved supported xPub kyberKeys pqCommitment).build me sign =
      some bytes) :
    let p := Pdu.negotiatedOffer reserved supported xPub kyberKeys pqCommitment
    receive uniform p.counter (padded bytes) =
      (p.signed me).map (fun m => (p.message me (sign m), m)) ↔ p.Arrives uniform := by
  cases reserved with
  | true =>
      obtain ⟨material, hmaterial, hbytes⟩ := Option.bind_eq_some_iff.mp h
      cases hbytes
      have hiff := receive_negotiatedOffer_iff uniform me sign hmaterial
      simpa only [Pdu.counter, Pdu.signed, Pdu.message, Pdu.Arrives, hmaterial, Option.map_some,
        true_and] using hiff
  | false =>
      obtain ⟨material, hmaterial, hbytes⟩ := Option.bind_eq_some_iff.mp h
      cases hbytes
      simp only [Pdu.counter, Pdu.signed, Pdu.Arrives, hmaterial, Option.map_some,
        Bool.false_eq_true, false_and, iff_false]
      exact receive_old_negotiatedOffer uniform me sign hmaterial _

end Kinds

/-- A message sent through the shards is received with the fields that were put in, and its
signature verified over what was signed, exactly when `Arrives` says so: for every message
the builders make, every signature, and any two shards. -/
theorem handshake_round_trip (rs : ReedSolomon) (hrs : rs.Lawful) (key : SpoolKey)
    (uniform : Bool) (me : Octets 32) (sign : Bytes → Octets 64) (p : Pdu) (bytes : Bytes)
    (hbuild : p.build me sign = some bytes) (i j : Fin 3) (hij : i ≠ j) :
    (sendThrough rs key bytes i j).bind (receive uniform p.counter) =
      (p.signed me).map (fun m => (p.message me (sign m), m)) ↔ p.Arrives uniform := by
  rw [sendThrough_eq hrs key (Pdu.ne_nil_of_build me sign hbuild) hij, Option.bind_some]
  cases p with
  | offer xPub kyberPub =>
      cases hbuild
      have hlen := length_buildLegacy me sign (show handshakeMagic.length = 16 by decide) xPub
        kyberPub
      rw [← buildHandshakePdu] at hlen
      rw [padded_of_even (by omega)]
      exact receive_offer_iff uniform me sign xPub kyberPub
  | response xPub ct =>
      cases hbuild
      have hlen := length_buildLegacy me sign (show responseMagic.length = 16 by decide) xPub ct
      rw [← buildResponsePdu] at hlen
      rw [padded_of_even (by omega)]
      exact receive_response_iff uniform me sign xPub ct
  | uniformOffer start xPub kyberPub =>
      cases hbuild
      have hlen := length_buildUniform me sign start xPub kyberPub
      rw [padded_of_even (by omega)]
      exact receive_uniformOffer_iff uniform me sign start xPub kyberPub
  | uniformResponse start xPub ct =>
      cases hbuild
      have hlen := length_buildUniform me sign start xPub ct
      rw [padded_of_even (by omega)]
      exact receive_uniformResponse_iff uniform me sign start xPub ct
  | suiteOffer suite xPub kyberPub =>
      rw [Pdu.counter, receive_suiteOffer uniform me sign hbuild]
      simp [Pdu.signed, Pdu.Arrives]
  | suiteResponse suite xPub ct =>
      rw [Pdu.counter, receive_suiteResponse uniform me sign hbuild]
      simp [Pdu.signed, Pdu.Arrives]
  | negotiatedOffer reserved supported xPub kyberKeys pqCommitment =>
      exact receive_negotiatedOffer_pdu_iff uniform me sign hbuild
  | negotiatedResponse suite xPub ct pqCommitment =>
      obtain ⟨material, hmaterial, hbytes⟩ := Option.bind_eq_some_iff.mp hbuild
      rw [responseMaterial] at hmaterial
      split at hmaterial
      · cases hmaterial
      · rename_i hct
        cases hmaterial
        cases hbytes
        rw [Pdu.signed, responseMaterial, if_neg hct]
        simp [Pdu.Arrives, Pdu.counter, Pdu.message,
          receive_negotiatedResponse uniform me sign (not_ne_iff.mp hct)]

/-- A legacy offer brought through by its first and its parity shard. -/
theorem handshake_round_trip_offer :
    let key : SpoolKey := ⟨List.Vector.replicate 4 0, 0, 0, none⟩
    let me : Octets 32 := List.Vector.replicate 32 7
    let sign : Bytes → Octets 64 := fun _ => List.Vector.replicate 64 9
    let p : Pdu := .offer (List.Vector.replicate 32 1) (List.Vector.replicate 800 2)
    ∃ bytes, p.build me sign = some bytes ∧
      (sendThrough galois8 key bytes 0 2).bind (receive false p.counter) =
        (p.signed me).map (fun m => (p.message me (sign m), m)) := by
  intro key me sign p
  exact ⟨_, rfl, (handshake_round_trip galois8 galois8_lawful key false me sign p _ rfl 0 2
    (by decide)).mpr rfl⟩

/-- A versioned offer of the ML-KEM-512 suite is padded and then refused by its parser. -/
theorem suite_offer_lost :
    let key : SpoolKey := ⟨List.Vector.replicate 4 0, 0, 0, none⟩
    let me : Octets 32 := List.Vector.replicate 32 7
    let sign : Bytes → Octets 64 := fun _ => List.Vector.replicate 64 9
    let p : Pdu := .suiteOffer .x25519MlKem512V2 (List.Vector.replicate 32 1)
      (replicate 800 2)
    ∃ bytes, p.build me sign = some bytes ∧ ∀ uniform,
      (sendThrough galois8 key bytes 0 1).bind (receive uniform p.counter) ≠
        (p.signed me).map (fun m => (p.message me (sign m), m)) := by
  intro key me sign p
  obtain ⟨bytes, hbuild, hlost⟩ := sendThrough_suiteOffer me sign galois8_lawful key
    .x25519MlKem512V2 (List.Vector.replicate 32 1)
    (length_replicate : (replicate 800 (2 : UInt8)).length = 800)
    (show (0 : Fin 3) ≠ 1 by decide)
  refine ⟨bytes, hbuild, fun uniform h => ?_⟩
  have hnone : ((p.signed me).map fun m => (p.message me (sign m), m)) = none :=
    h.symm.trans (hlost uniform)
  exact Bool.noConfusion (congrArg Option.isSome hnone)

end Vantablack.Handshake
