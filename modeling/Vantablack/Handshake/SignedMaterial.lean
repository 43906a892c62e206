import Vantablack.Layers.Kem

/-!
What a node's identity key signs. Twelve kinds of message are signed with the one Ed25519
key of a node, eight of the handshakes and four of the ratchet. This module asks whether
the signed bytes determine the message.

They do, up to one collision: a legacy offer, a ratchet step and a ratchet answer each sign
832 bytes without a tag. Every other kind is told apart by the length of what it signs.
-/

namespace Vantablack.Handshake

open Lib Layers HybridCipherSuite List

/-! ### Materials of the ratchet messages (`session/mod.rs`) -/

def qelMixMaxLabel : ℕ := 128

/-- The name of a quantum key. `build_qel_mix_pdu` asserts the bound. -/
abbrev QelLabel := { label : String // (utf8 label).length ≤ qelMixMaxLabel }

def rekeyInitSignedMaterial (xPub : Octets 32) (kyberPub : Octets 800) : Bytes :=
  xPub.toList ++ kyberPub.toList

def rekeyAnswerSignedMaterial (xPub : Octets 32) (kyberCt : Octets 768) (confirm : Octets 32) :
    Bytes :=
  xPub.toList ++ (kyberCt.toList ++ confirm.toList)

def qelMixSignedMaterial (epoch : UInt64) (label : String) (confirm : Octets 32) : Bytes :=
  toBeBytes 8 epoch.toNat ++ (toBeBytes 2 (utf8 label).length ++
    (utf8 label ++ confirm.toList))

def qelMixResponseSignedMaterial (epoch : UInt64) (confirm : Octets 32) : Bytes :=
  toBeBytes 8 epoch.toNat ++ confirm.toList

/-! ### The signed messages -/

/-- The fields of a negotiated offer. Its suites are distinct and its keys stand in the
order of the suites: `initiate_handshake` sends no other offer, and no other parses. -/
structure NegotiatedOffer where
  supported : List HybridCipherSuite
  x25519Pub : Octets 32
  kyberKeys : List (HybridCipherSuite × Bytes)
  pqCommitment : Octets 32
  supported_ne_nil : supported ≠ []
  supported_nodup : supported.Nodup
  keys_in_order : kyberKeys.map Prod.fst = supported
  keys_length : ∀ e ∈ kyberKeys, e.2.length = suiteKeyLen e.1

/-- A message one node signs. Its own identity key is not among the fields. -/
inductive SignedMessage where
  | offer (xPub : Octets 32) (kyberPub : Octets 800)
  | response (xPub : Octets 32) (kyberCt : Octets 768)
  | uniformOffer (start : Octets 16) (xPub : Octets 32) (kyberPub : Octets 800)
  | uniformResponse (start : Octets 16) (xPub : Octets 32) (kyberCt : Octets 768)
  | suiteOffer (suite : HybridCipherSuite) (xPub : Octets 32)
      (kyberPub : Octets (suiteKeyLen suite))
  | suiteResponse (suite : HybridCipherSuite) (xPub : Octets 32)
      (kyberCt : Octets (suiteCtLen suite))
  | negotiatedOffer (offer : NegotiatedOffer)
  | negotiatedResponse (suite : HybridCipherSuite) (xPub : Octets 32)
      (kyberCt : Octets (suiteCtLen suite)) (pqCommitment : Octets 32)
  | ratchetStep (xPub : Octets 32) (kyberPub : Octets 800)
  | ratchetAnswer (xPub : Octets 32) (kyberCt : Octets 768) (confirm : Octets 32)
  | quantumMix (epoch : UInt64) (label : QelLabel) (confirm : Octets 32)
  | quantumMixAnswer (epoch : UInt64) (confirm : Octets 32)

inductive MessageKind where
  | offer
  | response
  | uniformOffer
  | uniformResponse
  | suiteOffer
  | suiteResponse
  | negotiatedOffer
  | negotiatedResponse
  | ratchetStep
  | ratchetAnswer
  | quantumMix
  | quantumMixAnswer
  deriving DecidableEq, Repr

/-- The kinds that sign 832 bytes of fresh key material and nothing else. -/
def MessageKind.bare : MessageKind → Bool
  | .offer | .ratchetStep | .ratchetAnswer => true
  | _ => false

namespace SignedMessage

def kind : SignedMessage → MessageKind
  | offer .. => .offer
  | response .. => .response
  | uniformOffer .. => .uniformOffer
  | uniformResponse .. => .uniformResponse
  | suiteOffer .. => .suiteOffer
  | suiteResponse .. => .suiteResponse
  | negotiatedOffer .. => .negotiatedOffer
  | negotiatedResponse .. => .negotiatedResponse
  | ratchetStep .. => .ratchetStep
  | ratchetAnswer .. => .ratchetAnswer
  | quantumMix .. => .quantumMix
  | quantumMixAnswer .. => .quantumMixAnswer

/-- The bytes that the node with identity key `me` signs for a message. -/
def signedMaterial (me : Octets 32) : SignedMessage → Option Bytes
  | offer xPub kyberPub => some (legacyMaterial xPub kyberPub)
  | response xPub kyberCt => some (legacyMaterial xPub kyberCt)
  | uniformOffer start xPub kyberPub => some (uniformMaterial start xPub kyberPub me)
  | uniformResponse start xPub kyberCt => some (uniformMaterial start xPub kyberCt me)
  | suiteOffer suite xPub kyberPub => some (suiteMaterial suite xPub kyberPub.toList me)
  | suiteResponse suite xPub kyberCt => some (suiteMaterial suite xPub kyberCt.toList me)
  | negotiatedOffer o => negotiationMaterial o.supported o.x25519Pub o.kyberKeys me o.pqCommitment
  | negotiatedResponse suite xPub kyberCt pqCommitment =>
      responseMaterial suite xPub kyberCt.toList me pqCommitment
  | ratchetStep xPub kyberPub => some (rekeyInitSignedMaterial xPub kyberPub)
  | ratchetAnswer xPub kyberCt confirm => some (rekeyAnswerSignedMaterial xPub kyberCt confirm)
  | quantumMix epoch label confirm => some (qelMixSignedMaterial epoch label.1 confirm)
  | quantumMixAnswer epoch confirm => some (qelMixResponseSignedMaterial epoch confirm)

end SignedMessage

/-! ### The material of a negotiated offer -/

namespace NegotiatedOffer

/-- The offer `initiate_handshake` builds: both suites, the stronger one first. -/
def both (xPub : Octets 32) (key768 : Octets 1184) (key512 : Octets 800)
    (pqCommitment : Octets 32) : NegotiatedOffer where
  supported := [x25519MlKem768V3, x25519MlKem512V2]
  x25519Pub := xPub
  kyberKeys := [(x25519MlKem768V3, key768.toList), (x25519MlKem512V2, key512.toList)]
  pqCommitment := pqCommitment
  supported_ne_nil := by decide
  supported_nodup := by decide
  keys_in_order := rfl
  keys_length := by simp [suiteKeyLen]

variable (o : NegotiatedOffer) (me : Octets 32)

theorem supported_cases :
    o.supported = [x25519MlKem512V2] ∨ o.supported = [x25519MlKem768V3] ∨
      o.supported = [x25519MlKem512V2, x25519MlKem768V3] ∨
      o.supported = [x25519MlKem768V3, x25519MlKem512V2] := by
  have hne := o.supported_ne_nil
  have hnodup := o.supported_nodup
  match hs : o.supported with
  | [] => exact absurd hs hne
  | [a] => cases a <;> simp
  | [a, b] =>
      rw [hs] at hnodup
      cases a <;> cases b <;> simp at hnodup ⊢
  | a :: b :: c :: _ =>
      -- two of three suites are equal
      rw [hs] at hnodup
      cases a <;> cases b <;> cases c <;> simp at hnodup

theorem length_supported_le : o.supported.length ≤ 2 := by
  rcases o.supported_cases with h | h | h | h <;> rw [h] <;> decide

theorem negotiationMaterial_eq :
    negotiationMaterial o.supported o.x25519Pub o.kyberKeys me o.pqCommitment =
      some (negotiationFields o.supported o.x25519Pub (entriesOf o.kyberKeys) me
        o.pqCommitment ++ [0]) := by
  have hentries : keyEntries o.kyberKeys o.supported = some (entriesOf o.kyberKeys) := by
    have h := keyEntries_of_nodup (o.keys_in_order ▸ o.supported_nodup) o.keys_length
    rwa [o.keys_in_order] at h
  have hcount : o.kyberKeys.length = o.supported.length := by
    rw [← o.keys_in_order, length_map]
  have hle := o.length_supported_le
  have hne := o.supported_ne_nil
  rw [negotiationMaterial, hentries]
  simp [hne, hcount, Nat.not_lt.mpr hle]

end NegotiatedOffer

theorem entriesOf_append_inj {keys keys' : List (HybridCipherSuite × Bytes)} {a b : Bytes}
    (hsuites : keys.map Prod.fst = keys'.map Prod.fst)
    (hlen : ∀ e ∈ keys, e.2.length = suiteKeyLen e.1)
    (hlen' : ∀ e ∈ keys', e.2.length = suiteKeyLen e.1)
    (h : entriesOf keys ++ a = entriesOf keys' ++ b) : keys = keys' ∧ a = b := by
  induction keys generalizing keys' with
  | nil =>
      have hnil : keys' = [] := map_eq_nil_iff.mp hsuites.symm
      subst hnil
      exact ⟨rfl, h⟩
  | cons e keys ih =>
      cases keys' with
      | nil => cases hsuites
      | cons e' keys' =>
          obtain ⟨suite, key⟩ := e
          obtain ⟨suite', key'⟩ := e'
          obtain ⟨rfl, htail⟩ := List.cons.inj hsuites
          have hkey : key.length = suiteKeyLen suite := hlen _ mem_cons_self
          have hkey' : key'.length = suiteKeyLen suite := hlen' _ mem_cons_self
          simp only [entriesOf, flatMap_cons, keyEntry, cons_append, append_assoc,
            List.cons.injEq, true_and, hkey, hkey', append_cancel_left_eq] at h
          obtain ⟨rfl, hrest⟩ := append_inj h (hkey.trans hkey'.symm)
          obtain ⟨rfl, rfl⟩ := ih htail (fun x hx => hlen x (mem_cons_of_mem _ hx))
            (fun x hx => hlen' x (mem_cons_of_mem _ hx)) hrest
          exact ⟨rfl, rfl⟩

/-! ### From the bytes back to the message -/

namespace SignedMessage

variable (me : Octets 32)

/-- The signed bytes, for every message of every kind. -/
def layout : SignedMessage → Bytes
  | offer xPub kyberPub => legacyMaterial xPub kyberPub
  | response xPub kyberCt => legacyMaterial xPub kyberCt
  | uniformOffer start xPub kyberPub => uniformMaterial start xPub kyberPub me
  | uniformResponse start xPub kyberCt => uniformMaterial start xPub kyberCt me
  | suiteOffer suite xPub kyberPub => suiteMaterial suite xPub kyberPub.toList me
  | suiteResponse suite xPub kyberCt => suiteMaterial suite xPub kyberCt.toList me
  | negotiatedOffer o =>
      negotiationFields o.supported o.x25519Pub (entriesOf o.kyberKeys) me o.pqCommitment ++ [0]
  | negotiatedResponse suite xPub kyberCt pqCommitment =>
      responseFields suite xPub kyberCt.toList me pqCommitment
  | ratchetStep xPub kyberPub => rekeyInitSignedMaterial xPub kyberPub
  | ratchetAnswer xPub kyberCt confirm => rekeyAnswerSignedMaterial xPub kyberCt confirm
  | quantumMix epoch label confirm => qelMixSignedMaterial epoch label.1 confirm
  | quantumMixAnswer epoch confirm => qelMixResponseSignedMaterial epoch confirm

theorem signedMaterial_eq (m : SignedMessage) : m.signedMaterial me = some (m.layout me) := by
  cases m with
  | negotiatedOffer o => exact o.negotiationMaterial_eq me
  | negotiatedResponse suite xPub kyberCt pqCommitment =>
      rw [signedMaterial, responseMaterial, if_neg (by simp)]
      rfl
  | _ => rfl

/-- One kind for each length in use, the first of the bare kinds for theirs. -/
def kindOfLength (n : ℕ) : MessageKind :=
  if n = 40 then .quantumMixAnswer
  else if n < 800 then .quantumMix
  else if n = 800 then .response
  else if n = 832 then .offer
  else if n = 848 then .uniformResponse
  else if n = 880 then .uniformOffer
  else if n = 833 ∨ n = 1153 then .suiteResponse
  else if n = 865 ∨ n = 1249 then .suiteOffer
  else if n = 881 ∨ n = 1201 then .negotiatedResponse
  else .negotiatedOffer

theorem length_negotiatedOffer (o : NegotiatedOffer) :
    ((negotiatedOffer o).layout me).length = 918 ∨
      ((negotiatedOffer o).layout me).length = 1302 ∨
      ((negotiatedOffer o).layout me).length = 2106 := by
  have hmagic : handshakeNegotiationMagic.length = 16 := by decide
  have hentries := length_entriesOf o.keys_length
  rw [o.keys_in_order] at hentries
  have hlen : ((negotiatedOffer o).layout me).length =
      114 + o.supported.length + (o.supported.map fun s => 3 + suiteKeyLen s).sum := by
    simp only [layout, negotiationFields, length_append, length_cons, length_map,
      length_nil, List.Vector.toList_length, hmagic, hentries]
    omega
  rw [hlen]
  rcases o.supported_cases with h | h | h | h <;> rw [h] <;> decide

theorem kindOfLength_layout (m : SignedMessage) :
    kindOfLength (m.layout me).length = if m.kind.bare then .offer else m.kind := by
  have hmagic : responseNegotiationMagic.length = 16 := by decide
  cases m with
  | negotiatedOffer o =>
      rcases length_negotiatedOffer me o with h | h | h <;> rw [h] <;> rfl
  | negotiatedResponse suite xPub kyberCt pqCommitment =>
      simp only [layout, responseFields, length_append, length_cons,
        List.Vector.toList_length, hmagic]
      cases suite <;> rfl
  | suiteOffer suite xPub kyberPub =>
      simp only [layout, suiteMaterial, length_append, length_cons,
        List.Vector.toList_length]
      cases suite <;> rfl
  | suiteResponse suite xPub kyberCt =>
      simp only [layout, suiteMaterial, length_append, length_cons,
        List.Vector.toList_length]
      cases suite <;> rfl
  | quantumMix epoch label confirm =>
      have hlabel : (utf8 label.1).length ≤ 128 := label.2
      have hlen : ((quantumMix epoch label confirm).layout me).length =
          42 + (utf8 label.1).length := by
        simp only [layout, qelMixSignedMaterial, length_append, length_toBeBytes,
          List.Vector.toList_length]
        omega
      rw [hlen, kindOfLength, if_neg (by omega), if_pos (by omega)]
      rfl
  | _ =>
      simp only [layout, legacyMaterial, uniformMaterial, rekeyInitSignedMaterial,
        rekeyAnswerSignedMaterial, qelMixResponseSignedMaterial, length_append,
        length_toBeBytes, List.Vector.toList_length]
      rfl

theorem toBeBytes_toNat_inj {a b : UInt64} (h : toBeBytes 8 a.toNat = toBeBytes 8 b.toNat) :
    a = b :=
  UInt64.toNat_inj.mp (toBeBytes_inj a.toNat_lt b.toNat_lt h)

theorem negotiatedOffer_inj {o o' : NegotiatedOffer}
    (h : (negotiatedOffer o).layout me = (negotiatedOffer o').layout me) : o = o' := by
  have hcancel := append_cancel_right h
  unfold negotiationFields at hcancel
  obtain ⟨hcount, hids⟩ := List.cons.inj (append_cancel_left hcancel)
  have hlen : o.supported.length = o'.supported.length := by
    have hle := o.length_supported_le
    have hle' := o'.length_supported_le
    have hnat := congrArg UInt8.toNat hcount
    rw [UInt8.toNat_ofNat', UInt8.toNat_ofNat'] at hnat
    omega
  obtain ⟨hmap, hrest⟩ := append_inj hids (by rw [length_map, length_map, hlen])
  have hinj : Function.Injective wireId := fun a b hab => wireId_inj.mp hab
  have hsupported := map_injective_iff.mpr hinj hmap
  obtain ⟨hx, hkeys⟩ := Block.append_inj.mp hrest
  have hsuites : o.kyberKeys.map Prod.fst = o'.kyberKeys.map Prod.fst := by
    rw [o.keys_in_order, o'.keys_in_order, hsupported]
  obtain ⟨hkyber, hend⟩ := entriesOf_append_inj hsuites o.keys_length o'.keys_length hkeys
  have hpq := Block.toList_inj.mp (append_cancel_left hend)
  cases o
  cases o'
  simp only [NegotiatedOffer.mk.injEq]
  exact ⟨hsupported, hx, hkyber, hpq⟩

theorem quantumMix_inj {e e' : UInt64} {l l' : QelLabel} {c c' : Octets 32}
    (h : (quantumMix e l c).layout me = (quantumMix e' l' c').layout me) :
    quantumMix e l c = quantumMix e' l' c' := by
  have hle : (utf8 l.1).length ≤ 128 := l.2
  have hle' : (utf8 l'.1).length ≤ 128 := l'.2
  obtain ⟨hepoch, hrest⟩ := append_inj h (by rw [length_toBeBytes, length_toBeBytes])
  obtain ⟨hlen, hrest⟩ := append_inj hrest (by rw [length_toBeBytes, length_toBeBytes])
  have hlabel : (utf8 l.1).length = (utf8 l'.1).length :=
    toBeBytes_inj (by omega) (by omega) hlen
  obtain ⟨hbytes, hconfirm⟩ := append_inj hrest hlabel
  rw [toBeBytes_toNat_inj hepoch, Subtype.ext (utf8_inj hbytes), Block.toList_inj.mp hconfirm]

theorem layout_inj {m m' : SignedMessage} (hkind : m.kind = m'.kind)
    (h : m.layout me = m'.layout me) : m = m' := by
  cases m <;> cases m' <;> cases hkind
  case negotiatedOffer.negotiatedOffer o o' => rw [negotiatedOffer_inj me h]
  case quantumMix.quantumMix => exact quantumMix_inj me h
  case quantumMixAnswer.quantumMixAnswer e c e' c' =>
    obtain ⟨hepoch, hconfirm⟩ := append_inj h (by rw [length_toBeBytes, length_toBeBytes])
    rw [toBeBytes_toNat_inj hepoch, Block.toList_inj.mp hconfirm]
  case suiteOffer.suiteOffer suite _ _ suite' _ _ =>
    obtain ⟨hsuite, hrest⟩ := List.cons.inj h
    cases wireId_inj.mp hsuite
    simpa using hrest
  case suiteResponse.suiteResponse suite _ _ suite' _ _ =>
    obtain ⟨hsuite, hrest⟩ := List.cons.inj h
    cases wireId_inj.mp hsuite
    simpa using hrest
  case negotiatedResponse.negotiatedResponse =>
    obtain ⟨hsuite, hrest⟩ := List.cons.inj (append_cancel_left h)
    cases wireId_inj.mp hsuite
    simpa using hrest
  all_goals
    simpa [layout, legacyMaterial, uniformMaterial, rekeyInitSignedMaterial,
      rekeyAnswerSignedMaterial] using h

theorem exists_of_bare {k k' : MessageKind} (hk : k.bare) (hk' : k'.bare) :
    ∃ m m' : SignedMessage, m.kind = k ∧ m'.kind = k' ∧ m.layout me = m'.layout me := by
  let x : Octets 32 := List.Vector.replicate 32 0
  let ky : Octets 800 := List.Vector.replicate 800 0
  let ct : Octets 768 := List.Vector.replicate 768 0
  have hof : ∀ j : MessageKind, j.bare → ∃ m : SignedMessage, m.kind = j ∧
      m.layout me = (offer x ky).layout me := by
    intro j hj
    cases j with
    | offer => exact ⟨offer x ky, rfl, rfl⟩
    | ratchetStep => exact ⟨ratchetStep x ky, rfl, rfl⟩
    | ratchetAnswer =>
        refine ⟨ratchetAnswer x ct x, rfl, ?_⟩
        have hsplit : ky.toList = ct.toList ++ x.toList := by
          change replicate 800 (0 : UInt8) = replicate 768 0 ++ replicate 32 0
          exact replicate_add 768 32 0
        simp only [layout, rekeyAnswerSignedMaterial, legacyMaterial, hsplit]
    | _ => cases hj
  obtain ⟨m, hm, heq⟩ := hof k hk
  obtain ⟨m', hm', heq'⟩ := hof k' hk'
  exact ⟨m, m', hm, hm', heq.trans heq'.symm⟩

end SignedMessage

open SignedMessage in
/-- For which kinds the signed bytes determine the message: any two of them, unless both
are bare and they differ. -/
theorem signed_material_unambiguous (me : Octets 32) (k k' : MessageKind) :
    (∀ m m' : SignedMessage, m.kind = k → m'.kind = k' →
      m.signedMaterial me = m'.signedMaterial me → m = m') ↔
      (k = k' ∨ k.bare = false ∨ k'.bare = false) := by
  constructor
  · intro hunamb
    by_contra hcon
    rw [not_or, not_or, Bool.not_eq_false, Bool.not_eq_false] at hcon
    obtain ⟨hne, hk, hk'⟩ := hcon
    obtain ⟨m, m', hm, hm', heq⟩ := exists_of_bare me hk hk'
    have hsame := hunamb m m' hm hm' (by rw [signedMaterial_eq, signedMaterial_eq, heq])
    exact hne (by rw [← hm, ← hm', hsame])
  · rintro hcond m m' rfl rfl heq
    rw [signedMaterial_eq, signedMaterial_eq, Option.some.injEq] at heq
    have hlen := congrArg (fun b => kindOfLength b.length) heq
    simp only [kindOfLength_layout] at hlen
    refine layout_inj me ?_ heq
    rcases hcond with h | h | h
    · exact h
    · rw [h] at hlen
      cases hb : m'.kind.bare with
      | false => simpa [hb] using hlen
      | true =>
          -- the kind of `m` would be that of an offer, which is bare
          simp only [hb, if_true, Bool.false_eq_true, if_false] at hlen
          rw [hlen] at h
          cases h
    · rw [h] at hlen
      cases hb : m.kind.bare with
      | false => simpa [hb] using hlen
      | true =>
          simp only [hb, if_true, Bool.false_eq_true, if_false] at hlen
          rw [← hlen] at h
          cases h

/-- A legacy offer and a ratchet step over the same keys sign the same bytes. -/
theorem signed_material_of_ratchet_step :
    ¬ ∀ (me : Octets 32) (m m' : SignedMessage),
      m.signedMaterial me = m'.signedMaterial me → m.kind = m'.kind ∧ m = m' := by
  intro h
  have hkind := h (List.Vector.replicate 32 7)
    (.offer (List.Vector.replicate 32 1) (List.Vector.replicate 800 2))
    (.ratchetStep (List.Vector.replicate 32 1) (List.Vector.replicate 800 2)) rfl
  cases hkind.1

end Vantablack.Handshake
