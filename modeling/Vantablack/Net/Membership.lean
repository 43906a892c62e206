import Mathlib.Algebra.Field.ZMod
import Vantablack.Layers.Kem
import Vantablack.Lib.Schnorr

/-!
The proof of mesh membership of `net/security.rs`, `ZkAuthenticator`: a Schnorr proof of the scalar
that is derived from the PSK and the identity key, bound to the key and to a timestamp.

The group has a prime order `p`, its scalars are `ZMod p`. The group with its compressed points,
SHA-256 and the key derivation come from other crates; of the two hashes nothing is assumed.
-/

namespace Vantablack.Net

open Lib

/-! ### Scalars -/

/-- The number of a little-endian byte string. -/
def fromLeBytes (b : Bytes) : ℕ := fromBeBytes b.reverse

theorem fromLeBytes_inj {n : ℕ} {b b' : Octets n}
    (h : fromLeBytes b.toList = fromLeBytes b'.toList) : b = b' := by
  have hlen : ∀ v : Octets n, v.toList.reverse.length = n := fun v => by
    rw [List.length_reverse, v.toList_length]
  have hb := toBeBytes_fromBeBytes b.toList.reverse
  have hb' := toBeBytes_fromBeBytes b'.toList.reverse
  rw [hlen] at hb hb'
  unfold fromLeBytes at h
  rw [h, hb'] at hb
  exact List.Vector.toList_injective (List.reverse_injective hb).symm

variable {p : ℕ}

/-- `Scalar::from_bytes_mod_order`, and for 64 bytes `from_bytes_mod_order_wide`. -/
def scalarModOrder (p : ℕ) (b : Bytes) : ZMod p := (fromLeBytes b : ZMod p)

/-- `Scalar::from_canonical_bytes`: the number has to be below the order. -/
def fromCanonicalBytes (p : ℕ) (b : Octets 32) : Option (ZMod p) :=
  if fromLeBytes b.toList < p then some (scalarModOrder p b.toList) else none

def scalarBytes (z : ZMod p) : Octets 32 :=
  ⟨(toBeBytes 32 z.val).reverse, by rw [List.length_reverse, length_toBeBytes]⟩

theorem toList_scalarBytes (z : ZMod p) :
    (scalarBytes z).toList = (toBeBytes 32 z.val).reverse := by
  rw [scalarBytes, List.Vector.toList_mk]

theorem fromCanonicalBytes_scalarBytes [NeZero p] (hp : p ≤ 256 ^ 32) (z : ZMod p) :
    fromCanonicalBytes p (scalarBytes z) = some z := by
  have hz : z.val < p := ZMod.val_lt z
  have hread : fromLeBytes (scalarBytes z).toList = z.val := by
    rw [fromLeBytes, toList_scalarBytes, List.reverse_reverse, fromBeBytes_toBeBytes_mod,
      Nat.mod_eq_of_lt (hz.trans_le hp)]
  rw [fromCanonicalBytes, scalarModOrder, hread, if_pos hz, ZMod.natCast_zmod_val]

theorem scalarModOrder_of_canonical {b : Octets 32} {z : ZMod p}
    (h : fromCanonicalBytes p b = some z) : scalarModOrder p b.toList = z := by
  rw [fromCanonicalBytes] at h
  split at h
  · exact Option.some.inj h
  · cases h

theorem fromCanonicalBytes_inj {b b' : Octets 32} {z : ZMod p}
    (h : fromCanonicalBytes p b = some z) (h' : fromCanonicalBytes p b' = some z) : b = b' := by
  have hval : ∀ v : Octets 32, fromCanonicalBytes p v = some z → fromLeBytes v.toList = z.val := by
    intro v hv
    rw [fromCanonicalBytes] at hv
    split at hv
    · rename_i hlt
      rw [← Option.some.inj hv, scalarModOrder, ZMod.val_natCast_of_lt hlt]
    · cases hv
  exact fromLeBytes_inj ((hval b h).trans (hval b' h').symm)

/-! ### The authenticator -/

/-- A group of prime order with a generator, and the encoding of its points. The scalars fit in 32
bytes. -/
structure PointGroup (p : ℕ) (G : Type) [Ring (ZMod p)] [AddCommGroup G] [Module (ZMod p) G] where
  base : G
  base_ne_zero : base ≠ 0
  generates : ∀ P : G, ∃ x : ZMod p, x • base = P
  order_le : p ≤ 256 ^ 32
  compress : G → Octets 32
  decompress : Octets 32 → Option G
  decompress_compress : ∀ P, decompress (compress P) = some P
  compress_decompress : ∀ b P, decompress b = some P → compress P = b

/-- What the authenticator calls: `sha256`, and HKDF-SHA256 with a salt, the input keying material
and an info, expanded to 64 bytes. -/
structure ZkHashes where
  sha256 : Bytes → Octets 32
  hkdf : Bytes → Bytes → Bytes → Octets 64

def zkMemberLabel : Bytes := utf8 "GGN_ZK_MEMBERSHIP_v1"

def zkChallengeLabel : Bytes := utf8 "GGN_ZK_SCHNORR_CHALLENGE_v1"

def zkFreshnessSecs : ℕ := 300

def zkProofLen : ℕ := 64

namespace ZkAuthenticator

variable [Fact p.Prime] {G : Type} [AddCommGroup G] [Module (ZMod p) G]

def membershipScalar (p : ℕ) (hashes : ZkHashes) (publicKey psk : Octets 32) : ZMod p :=
  scalarModOrder p
    (hashes.hkdf zkMemberLabel (psk.toList ++ publicKey.toList) zkMemberLabel).toList

def memberPoint (group : PointGroup p G) (hashes : ZkHashes) (publicKey psk : Octets 32) : G :=
  membershipScalar p hashes publicKey psk • group.base

def challenge (group : PointGroup p G) (hashes : ZkHashes) (publicKey : Octets 32)
    (rPoint xPoint : G) (tsBe : Bytes) : ZMod p :=
  scalarModOrder p (hashes.sha256 (zkChallengeLabel ++ (publicKey.toList ++
    ((group.compress rPoint).toList ++ ((group.compress xPoint).toList ++ tsBe))))).toList

/-- The layout of a proof, `R ‖ z`. -/
def proofBytes (r z : Octets 32) : Octets 64 :=
  ⟨r.toList ++ z.toList, by rw [List.length_append, r.toList_length, z.toList_length]⟩

/-- The proof made at the time `now` with the random bytes `rBytes`: the context and the proof. -/
def createProof (group : PointGroup p G) (hashes : ZkHashes) (publicKey psk : Octets 32)
    (now : UInt64) (rBytes : Octets 64) : Octets 32 × Octets 64 :=
  let x := membershipScalar p hashes publicKey psk
  let xPoint := x • group.base
  let r := scalarModOrder p rBytes.toList
  let rPoint := r • group.base
  let tsBe := toBeBytes 8 now.toNat
  let c := challenge group hashes publicKey rPoint xPoint tsBe
  let z := r + c * x
  (Block.zeroPadded 32 tsBe, proofBytes (group.compress rPoint) (scalarBytes z))

/-- The readings of a clock and of a context differ by this; the subtractions saturate. -/
def skew (now ts : UInt64) : ℕ := max (now.toNat - ts.toNat) (ts.toNat - now.toNat)

variable [DecidableEq G]

def verifyProofAt (group : PointGroup p G) (hashes : ZkHashes) (publicKey : Octets 32)
    (psk : Option (Octets 32)) (context : Octets 32) (proof : Bytes) (now : UInt64) : Bool :=
  if proof.length ≠ zkProofLen then false
  else
    match psk with
    | none => false
    | some psk =>
        if (context.toList.drop 8).any (· != 0) then false
        else
          let tsBe := context.toList.take 8
          let ts := UInt64.ofNat (fromBeBytes tsBe)
          if zkFreshnessSecs < skew now ts then false
          else
            match (blockAt proof 0 32).bind group.decompress with
            | none => false
            | some rPoint =>
                match (blockAt proof 32 32).bind (fromCanonicalBytes p) with
                | none => false
                | some z =>
                    let xPoint := memberPoint group hashes publicKey psk
                    let c := challenge group hashes publicKey rPoint xPoint tsBe
                    decide (z • group.base = rPoint + c • xPoint)

/-! ### Verification -/

variable {group : PointGroup p G} {hashes : ZkHashes} {publicKey : Octets 32}
  {psk : Option (Octets 32)} {context : Octets 32} {proof : Bytes} {now : UInt64}

/-- What the verifier asks of a proof, with the scalars and the point it reads. -/
structure Accepted (group : PointGroup p G) (hashes : ZkHashes) (publicKey psk context : Octets 32)
    (proof : Bytes) (now : UInt64) (r z : Octets 32) (rPoint : G) (zScalar : ZMod p) : Prop where
  layout : proof = r.toList ++ z.toList
  reserved : ∀ b ∈ context.toList.drop 8, b = 0
  fresh : skew now (UInt64.ofNat (fromBeBytes (context.toList.take 8))) ≤ zkFreshnessSecs
  point : group.decompress r = some rPoint
  scalar : fromCanonicalBytes p z = some zScalar
  equation : Schnorr.Accepts group.base rPoint (memberPoint group hashes publicKey psk)
    (challenge group hashes publicKey rPoint (memberPoint group hashes publicKey psk)
      (context.toList.take 8)) zScalar

theorem blockAt_proofBytes (r z : Octets 32) :
    blockAt (r.toList ++ z.toList) 0 32 = some r ∧
      blockAt (r.toList ++ z.toList) 32 32 = some z := by
  have hr : RestAt (r.toList ++ z.toList) 0 (r.toList ++ z.toList) := RestAt.start _
  have hz : RestAt (r.toList ++ z.toList) 32 (z.toList ++ []) := by
    rw [List.append_nil]
    exact hr.block
  exact ⟨hr.blockAt, hz.blockAt⟩

theorem verifyProofAt_eq_true_iff :
    verifyProofAt group hashes publicKey psk context proof now = true ↔
      ∃ secret ∈ psk, ∃ r z rPoint zScalar,
        Accepted group hashes publicKey secret context proof now r z rPoint zScalar := by
  constructor
  · intro h
    unfold verifyProofAt at h
    split at h
    · cases h
    rename_i hlen
    rw [not_not] at hlen
    cases psk with
    | none => cases h
    | some secret =>
        dsimp only at h
        split at h
        · cases h
        rename_i hreserved
        split at h
        · cases h
        rename_i hfresh
        split at h
        · cases h
        rename_i rPoint hpoint
        split at h
        · cases h
        rename_i zScalar hscalar
        obtain ⟨r, hr, hpoint⟩ := Option.bind_eq_some_iff.mp hpoint
        obtain ⟨z, hz, hscalar⟩ := Option.bind_eq_some_iff.mp hscalar
        have hequation := of_decide_eq_true h
        refine ⟨secret, rfl, r, z, rPoint, zScalar, ?_, ?_, not_lt.mp hfresh, hpoint, hscalar,
          hequation⟩
        · have hrest : (proof.drop 32).take 32 = proof.drop 32 := by
            apply List.take_of_length_le
            rw [List.length_drop, hlen, zkProofLen]
          rw [toList_of_blockAt hr, toList_of_blockAt hz, hrest, List.drop_zero,
            List.take_append_drop]
        · simpa using hreserved
  · rintro ⟨secret, hsecret, r, z, rPoint, zScalar, h⟩
    cases hsecret
    have hlen : proof.length = zkProofLen := by
      rw [h.layout, List.length_append, r.toList_length, z.toList_length]
      rfl
    have hreserved : ¬ (context.toList.drop 8).any (· != 0) = true := by
      simpa using h.reserved
    obtain ⟨hr, hz⟩ := blockAt_proofBytes r z
    rw [← h.layout] at hr hz
    unfold verifyProofAt
    rw [if_neg (not_not.mpr hlen)]
    dsimp only
    rw [if_neg hreserved, if_neg (not_lt.mpr h.fresh), hr, hz, Option.bind_some, Option.bind_some,
      h.point, h.scalar]
    have hequation : zScalar • group.base = _ := h.equation
    exact decide_eq_true hequation

theorem verifyProofAt_append_iff {r z : Octets 32} :
    verifyProofAt group hashes publicKey psk context (r.toList ++ z.toList) now = true ↔
      ∃ secret ∈ psk, ∃ rPoint zScalar,
        Accepted group hashes publicKey secret context (r.toList ++ z.toList) now r z rPoint
          zScalar := by
  rw [verifyProofAt_eq_true_iff]
  constructor
  · rintro ⟨secret, hsecret, r', z', rPoint, zScalar, h⟩
    obtain ⟨rfl, hz⟩ := Block.append_inj.mp h.layout
    obtain rfl := Block.toList_inj.mp hz
    exact ⟨secret, hsecret, rPoint, zScalar, h⟩
  · rintro ⟨secret, hsecret, rPoint, zScalar, h⟩
    exact ⟨secret, hsecret, r, z, rPoint, zScalar, h⟩

theorem skew_le_iff (now t : UInt64) :
    skew now t ≤ zkFreshnessSecs ↔
      t.toNat ≤ now.toNat + zkFreshnessSecs ∧ now.toNat ≤ t.toNat + zkFreshnessSecs := by
  rw [skew]
  omega

omit [DecidableEq G] in
theorem context_createProof (group : PointGroup p G) (hashes : ZkHashes) (publicKey psk : Octets 32)
    (t : UInt64) (rBytes : Octets 64) :
    (createProof group hashes publicKey psk t rBytes).1.toList.take 8 = toBeBytes 8 t.toNat ∧
      ∀ b ∈ (createProof group hashes publicKey psk t rBytes).1.toList.drop 8, b = 0 := by
  have hlen : (toBeBytes 8 t.toNat).length = 8 := length_toBeBytes 8 _
  have hcontext : (createProof group hashes publicKey psk t rBytes).1 =
      Block.zeroPadded 32 (toBeBytes 8 t.toNat) := rfl
  rw [hcontext]
  constructor
  · rw [Block.take_zeroPadded hlen.ge (by rw [hlen]; decide), List.take_of_length_le hlen.le]
  · intro b hb
    rw [Block.toList_zeroPadded, List.drop_take, List.drop_left' hlen] at hb
    exact List.eq_of_mem_replicate (List.mem_of_mem_take hb)

theorem verifyProofAt_createProof (group : PointGroup p G) (hashes : ZkHashes)
    (publicKey psk : Octets 32) (t now : UInt64) (rBytes : Octets 64) :
    verifyProofAt group hashes publicKey (some psk)
        (createProof group hashes publicKey psk t rBytes).1
        (createProof group hashes publicKey psk t rBytes).2.toList now = true ↔
      t.toNat ≤ now.toNat + zkFreshnessSecs ∧ now.toNat ≤ t.toNat + zkFreshnessSecs := by
  obtain ⟨htake, hreserved⟩ := context_createProof group hashes publicKey psk t rBytes
  have hts : UInt64.ofNat (fromBeBytes (toBeBytes 8 t.toNat)) = t := by
    rw [fromBeBytes_toBeBytes t.toNat_lt, UInt64.ofNat_toNat]
  rw [verifyProofAt_eq_true_iff, ← skew_le_iff]
  constructor
  · rintro ⟨secret, hsecret, r, z, rPoint, zScalar, h⟩
    have hfresh := h.fresh
    rwa [htake, hts] at hfresh
  · intro hfresh
    refine ⟨psk, rfl, _, _, _, _, ⟨rfl, hreserved, ?_, group.decompress_compress _,
      fromCanonicalBytes_scalarBytes group.order_le _, ?_⟩⟩
    · rwa [htake, hts]
    · rw [htake]
      exact Schnorr.accepts_response _ _ _ _

theorem response_unique {r z z' : Octets 32} {now' : UInt64}
    (h : verifyProofAt group hashes publicKey psk context (r.toList ++ z.toList) now = true)
    (h' : verifyProofAt group hashes publicKey psk context (r.toList ++ z'.toList) now' = true) :
    z = z' := by
  obtain ⟨secret, rfl, rPoint, zScalar, hz⟩ := verifyProofAt_append_iff.mp h
  obtain ⟨_, ⟨⟩, rPoint', zScalar', hz'⟩ := verifyProofAt_append_iff.mp h'
  obtain rfl : rPoint = rPoint' := Option.some.inj (hz.point.symm.trans hz'.point)
  obtain rfl : zScalar = zScalar' := hz.equation.response_unique group.base_ne_zero hz'.equation
  exact fromCanonicalBytes_inj hz.scalar hz'.scalar

/-- The challenge that a proof with the commitment `r` answers in a context. -/
def challengeOf (group : PointGroup p G) (hashes : ZkHashes) (publicKey psk context r : Octets 32) :
    Option (ZMod p) :=
  (group.decompress r).map fun rPoint =>
    challenge group hashes publicKey rPoint (memberPoint group hashes publicKey psk)
      (context.toList.take 8)

theorem membershipScalar_eq {secret context' r z z' : Octets 32} {now' : UInt64} {c c' : ZMod p}
    (h : verifyProofAt group hashes publicKey (some secret) context (r.toList ++ z.toList) now =
      true)
    (h' : verifyProofAt group hashes publicKey (some secret) context' (r.toList ++ z'.toList) now' =
      true)
    (hc : challengeOf group hashes publicKey secret context r = some c)
    (hc' : challengeOf group hashes publicKey secret context' r = some c') (hne : c ≠ c') :
    membershipScalar p hashes publicKey secret =
      (scalarModOrder p z.toList - scalarModOrder p z'.toList) / (c - c') := by
  obtain ⟨_, ⟨⟩, rPoint, zScalar, hz⟩ := verifyProofAt_append_iff.mp h
  obtain ⟨_, ⟨⟩, rPoint', zScalar', hz'⟩ := verifyProofAt_append_iff.mp h'
  obtain rfl : rPoint = rPoint' := Option.some.inj (hz.point.symm.trans hz'.point)
  rw [challengeOf, hz.point, Option.map_some, Option.some.injEq] at hc hc'
  subst hc hc'
  rw [scalarModOrder_of_canonical hz.scalar, scalarModOrder_of_canonical hz'.scalar]
  exact Schnorr.Accepts.scalar_eq group.base_ne_zero hne hz.equation hz'.equation

/-- A member's proof is accepted within the freshness window and at no other time; for a key, a PSK,
a context and a commitment one response is accepted at most; a context with a reserved byte that is
not zero is refused; and two responses to one commitment give the membership scalar away. -/
theorem membership_proofs (group : PointGroup p G) (hashes : ZkHashes) (publicKey psk : Octets 32) :
    (∀ (t now : UInt64) (rBytes : Octets 64),
      verifyProofAt group hashes publicKey (some psk)
          (createProof group hashes publicKey psk t rBytes).1
          (createProof group hashes publicKey psk t rBytes).2.toList now = true ↔
        t.toNat ≤ now.toNat + zkFreshnessSecs ∧ now.toNat ≤ t.toNat + zkFreshnessSecs) ∧
    (∀ (context r z z' : Octets 32) (now now' : UInt64),
      verifyProofAt group hashes publicKey (some psk) context (r.toList ++ z.toList) now = true →
      verifyProofAt group hashes publicKey (some psk) context (r.toList ++ z'.toList) now' = true →
        z = z') ∧
    (∀ (context : Octets 32) (proof : Bytes) (now : UInt64), (∃ b ∈ context.toList.drop 8, b ≠ 0) →
      verifyProofAt group hashes publicKey (some psk) context proof now = false) ∧
    ∀ (context context' r z z' : Octets 32) (now now' : UInt64) (c c' : ZMod p),
      verifyProofAt group hashes publicKey (some psk) context (r.toList ++ z.toList) now = true →
      verifyProofAt group hashes publicKey (some psk) context' (r.toList ++ z'.toList) now' = true →
      challengeOf group hashes publicKey psk context r = some c →
      challengeOf group hashes publicKey psk context' r = some c' → c ≠ c' →
        membershipScalar p hashes publicKey psk =
          (scalarModOrder p z.toList - scalarModOrder p z'.toList) / (c - c') := by
  refine ⟨verifyProofAt_createProof group hashes publicKey psk,
    fun context r z z' now now' h h' => response_unique h h', ?_,
    fun context context' r z z' now now' c c' h h' hc hc' hne =>
      membershipScalar_eq h h' hc hc' hne⟩
  rintro context proof now ⟨b, hb, hne⟩
  rw [Bool.eq_false_iff]
  intro h
  obtain ⟨secret, -, r, z, rPoint, zScalar, hz⟩ := verifyProofAt_eq_true_iff.mp h
  exact hne (hz.reserved b hb)

/-- The group of three elements. -/
def threePoints : PointGroup 3 (ZMod 3) where
  base := 1
  base_ne_zero := one_ne_zero
  generates P := ⟨P, mul_one P⟩
  order_le := by norm_num
  compress := scalarBytes
  decompress := fromCanonicalBytes 3
  decompress_compress := fromCanonicalBytes_scalarBytes (by norm_num)
  compress_decompress b P h :=
    fromCanonicalBytes_inj (fromCanonicalBytes_scalarBytes (by norm_num) P) h

/-- The last byte of what is hashed, and the first of what a key is derived from. -/
def byteHashes : ZkHashes where
  sha256 b := Block.zeroPadded 32 [b.getLastD 0]
  hkdf _ ikm _ := Block.zeroPadded 64 [ikm.headD 0]

def repeated (n : ℕ) (b : UInt8) : Octets n := ⟨List.replicate n b, List.length_replicate⟩

theorem membership_proofs_three :
    let made (t : UInt64) :=
      createProof threePoints byteHashes (repeated 32 9) (repeated 32 2) t (repeated 64 1)
    verifyProofAt threePoints byteHashes (repeated 32 9) (some (repeated 32 2)) (made 1000).1
        (made 1000).2.toList 1300 = true ∧
      (∀ z : Octets 32, verifyProofAt threePoints byteHashes (repeated 32 9) (some (repeated 32 2))
        (made 1000).1 ((scalarBytes (1 : ZMod 3)).toList ++ z.toList) 1000 = true →
          scalarBytes (0 : ZMod 3) = z) ∧
      verifyProofAt threePoints byteHashes (repeated 32 9) (some (repeated 32 2)) (repeated 32 1)
        (made 1000).2.toList 1000 = false ∧
      membershipScalar 3 byteHashes (repeated 32 9) (repeated 32 2) = (0 - 2) / (1 - 2) := by
  intro made
  have h := membership_proofs threePoints byteHashes (repeated 32 9) (repeated 32 2)
  have hscalar : ∀ z : ZMod 3, scalarModOrder 3 (scalarBytes z).toList = z := fun z =>
    scalarModOrder_of_canonical (fromCanonicalBytes_scalarBytes (by norm_num) z)
  refine ⟨(h.1 1000 1300 (repeated 64 1)).mpr (by decide), fun z hz => ?_, ?_, ?_⟩
  · exact h.2.1 (made 1000).1 (scalarBytes (1 : ZMod 3)) (scalarBytes (0 : ZMod 3)) z 1000 1000
      (by decide +kernel) hz
  · exact h.2.2.1 (repeated 32 1) (made 1000).2.toList 1000 ⟨1, by decide, by decide⟩
  · have hextracted := h.2.2.2 (made 1000).1 (made 1001).1 (scalarBytes (1 : ZMod 3))
      (scalarBytes (0 : ZMod 3)) (scalarBytes (2 : ZMod 3)) 1000 1001 1 2 (by decide +kernel)
      (by decide +kernel) (by decide +kernel) (by decide +kernel) (by decide)
    rwa [hscalar, hscalar] at hextracted

end ZkAuthenticator

end Vantablack.Net
