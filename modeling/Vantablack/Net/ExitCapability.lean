import Vantablack.Net.Utf8

/-!
The vouchers of `net/relay.rs`: `ExitCapability` is signed by an exit operator, and lets one peer
use one scope of the exit until it expires. What is signed and what travels are laid out alike; the
encoder, the decoder and the signer each have their own checks.
-/

namespace Vantablack.Net

open Lib Layers

structure ExitCapability where
  issuerPk : Octets 32
  subject : String
  scope : String
  expiresAt : UInt64
  signature : Octets 64
  deriving DecidableEq

namespace ExitCapability

def magic : Bytes := utf8 "EXITAUTH"

def version : UInt8 := 1

def maxSubject : ℕ := 64

def maxScope : ℕ := 192

/-- The expiry, the subject behind one byte of length, and the scope behind two. -/
def body (subject scope : String) (expiresAt : UInt64) (rest : Bytes) : Bytes :=
  toBeBytes 8 expiresAt.toNat ++ (UInt8.ofNat (utf8 subject).length :: (utf8 subject ++
    (toBeBytes 2 (utf8 scope).length ++ (utf8 scope ++ rest))))

def signingBytes (subject scope : String) (expiresAt : UInt64) : Option Bytes :=
  if subject = "" ∨ maxSubject < (utf8 subject).length ∨
      scope = "" ∨ maxScope < (utf8 scope).length then none
  else some (utf8 "GGN_EXITAUTH_V1" ++ body subject scope expiresAt [])

/-- The voucher of an identity with the key `publicKey` that signs by `sign`. -/
def issue (publicKey : Octets 32) (sign : Bytes → Octets 64) (subject scope : String)
    (expiresAt : UInt64) : Option ExitCapability := do
  let signing ← signingBytes subject scope expiresAt
  some { issuerPk := publicKey
         subject := subject
         scope := scope
         expiresAt := expiresAt
         signature := sign signing }

/-- `verifyPeerSignature` is that of `layers/l0_identity.rs`. -/
def verify (verifyPeerSignature : Octets 32 → Bytes → Octets 64 → Bool) (c : ExitCapability)
    (now : UInt64) (expectedSubject requiredScope : String) : Bool :=
  if c.expiresAt < now ∨ c.subject ≠ expectedSubject ∨ c.scope ≠ requiredScope then false
  else
    match signingBytes c.subject c.scope c.expiresAt with
    | none => false
    | some signing => verifyPeerSignature c.issuerPk signing c.signature

def encode (c : ExitCapability) : Option Bytes :=
  let out := magic ++ version :: body c.subject c.scope c.expiresAt
    (c.issuerPk.toList ++ c.signature.toList)
  if (utf8 c.subject).length ≤ maxSubject ∧ (utf8 c.scope).length ≤ maxScope then some out
  else none

/-- A text of the given length at a position. It must not be empty, too long or cut off. -/
def textAt (raw : Bytes) (pos len max : ℕ) : Option String :=
  if len = 0 ∨ max < len ∨ raw.length < pos + len then none
  else (sliceAt raw pos len).bind fromUtf8

def decode (raw : Bytes) : Option ExitCapability :=
  if raw.length < magic.length + 1 + 8 + 1 + 2 + 32 + 64 ∨ raw.take 8 ≠ magic ∨
      raw[8]? ≠ some version then none
  else do
    let expiresAt ← sliceAt raw 9 8
    let subjectLen ← raw[9 + 8]?
    let subject ← textAt raw (9 + 8 + 1) subjectLen.toNat maxSubject
    let pos := 9 + 8 + 1 + subjectLen.toNat
    let scopeLen ← sliceAt raw pos 2
    let scope ← textAt raw (pos + 2) (fromBeBytes scopeLen) maxScope
    let pos := pos + 2 + fromBeBytes scopeLen
    let issuerPk ← blockAt raw pos 32
    let signature ← blockAt raw (pos + 32) 64
    if pos + 32 + 64 ≠ raw.length then none
    else
      some { issuerPk := issuerPk
             subject := subject
             scope := scope
             expiresAt := UInt64.ofNat (fromBeBytes expiresAt)
             signature := signature }

/-! ### Texts -/

@[simp] theorem length_magic : magic.length = 8 := by
  decide +kernel

theorem length_utf8_eq_zero_iff (s : String) : (utf8 s).length = 0 ↔ s = "" := by
  constructor
  · intro h
    apply Net.utf8_inj
    rw [List.length_eq_zero_iff.mp h]
    rfl
  · rintro rfl
    rfl

/-- A text that a reader with the bound `max` takes. -/
def Fits (s : String) (max : ℕ) : Prop :=
  s ≠ "" ∧ (utf8 s).length ≤ max
  deriving Decidable

variable {raw : Bytes}

theorem textAt_of_restAt {rest : Bytes} {pos max : ℕ} {s : String} (hs : Fits s max)
    (h : RestAt raw pos (utf8 s ++ rest)) : textAt raw pos (utf8 s).length max = some s := by
  have hbound : pos + (utf8 s).length ≤ raw.length := (h.skip rfl).1
  have hpos : (utf8 s).length ≠ 0 := fun hzero => hs.1 ((length_utf8_eq_zero_iff s).mp hzero)
  have hmax := hs.2
  rw [textAt, if_neg (by omega), h.sliceAt rfl, Option.bind_some, fromUtf8_utf8]

theorem restAt_of_textAt {rest : Bytes} {pos len max : ℕ} {s : String} (h : RestAt raw pos rest)
    (hs : textAt raw pos len max = some s) :
    (utf8 s).length = len ∧ Fits s max ∧
      ∃ rest', rest = utf8 s ++ rest' ∧ RestAt raw (pos + len) rest' := by
  rw [textAt] at hs
  split at hs
  · cases hs
  · rename_i hlen
    obtain ⟨l, hl, hread⟩ := Option.bind_eq_some_iff.mp hs
    obtain ⟨hcount, hrest⟩ := h.of_sliceAt hl
    rw [← utf8_of_fromUtf8 hread] at hcount hrest
    refine ⟨hcount, ⟨?_, by omega⟩, hrest⟩
    intro hempty
    have hzero := (length_utf8_eq_zero_iff s).mpr hempty
    omega

theorem toNat_length {s : String} (hs : Fits s maxSubject) :
    (UInt8.ofNat (utf8 s).length).toNat = (utf8 s).length := by
  have hmax : (utf8 s).length ≤ 64 := hs.2
  rw [UInt8.toNat_ofNat', Nat.mod_eq_of_lt (by omega)]

theorem fromBeBytes_length {s : String} (hs : Fits s maxScope) :
    fromBeBytes (toBeBytes 2 (utf8 s).length) = (utf8 s).length := by
  have hmax : (utf8 s).length ≤ 192 := hs.2
  exact fromBeBytes_toBeBytes (by omega)

/-! ### Reading -/

/-- A voucher that the encoder and the decoder take. -/
def Encodable (c : ExitCapability) : Prop :=
  Fits c.subject maxSubject ∧ Fits c.scope maxScope

theorem decode_of_encode {c : ExitCapability} (hc : c.Encodable) (h : encode c = some raw) :
    decode raw = some c := by
  obtain ⟨hsubject, hscope⟩ := hc
  rw [encode, if_pos ⟨hsubject.2, hscope.2⟩, Option.some.injEq] at h
  -- what is left of the data at each field
  have hmagic : RestAt raw 0 (magic ++ version :: body c.subject c.scope c.expiresAt
      (c.issuerPk.toList ++ c.signature.toList)) := by
    rw [h]
    exact RestAt.start raw
  have hversion := hmagic.skip length_magic
  have hexpires := hversion.next
  have hsubjectLen := hexpires.skip (length_toBeBytes 8 _)
  have hsubjectText := hsubjectLen.next
  have hscopeLen := hsubjectText.skip rfl
  have hscopeText := hscopeLen.skip (length_toBeBytes 2 _)
  have hissuer := hscopeText.skip rfl
  have hsignature := hissuer.block
  rw [← List.append_nil c.signature.toList] at hsignature
  have hend := hsignature.block.length_eq
  rw [List.length_nil, Nat.add_zero] at hend
  have hfront : ¬ (raw.length < magic.length + 1 + 8 + 1 + 2 + 32 + 64 ∨ raw.take 8 ≠ magic ∨
      raw[8]? ≠ some version) := by
    rintro (hshort | hfalse | hfalse)
    · rw [length_magic] at hshort
      omega
    · apply hfalse
      rw [← h, List.take_left' length_magic]
    · exact hfalse hversion.getElem?
  rw [decode, if_neg hfront, hexpires.sliceAt (length_toBeBytes 8 _), hsubjectLen.getElem?]
  simp only [Option.bind_eq_bind, Option.bind_some, toNat_length hsubject]
  rw [textAt_of_restAt hsubject hsubjectText, Option.bind_some,
    hscopeLen.sliceAt (length_toBeBytes 2 _), Option.bind_some, fromBeBytes_length hscope,
    textAt_of_restAt hscope hscopeText, Option.bind_some, hissuer.blockAt, Option.bind_some,
    hsignature.blockAt, Option.bind_some, if_neg (not_not.mpr hend),
    fromBeBytes_toBeBytes c.expiresAt.toNat_lt, UInt64.ofNat_toNat]

theorem encode_of_decode {c : ExitCapability} (h : decode raw = some c) :
    c.Encodable ∧ encode c = some raw := by
  rw [decode] at h
  split at h
  · cases h
  · rename_i hfront
    simp only [not_or, not_not] at hfront
    obtain ⟨-, hmagic, hversion⟩ := hfront
    simp only [Option.bind_eq_bind, Option.bind_eq_some_iff] at h
    obtain ⟨expiresAt, hexpires, subjectLen, hsubjectLen, subject, hsubject, scopeLen, hscopeLen,
      scope, hscope, issuerPk, hissuer, signature, hsignature, h⟩ := h
    split at h
    · cases h
    · rename_i hend
      rw [not_not] at hend
      cases h
      have hraw : RestAt raw 0 (magic ++ raw.drop 8) := by
        rw [← hmagic, List.take_append_drop]
        exact RestAt.start raw
      obtain ⟨rest, hrest, hat⟩ := (hraw.skip length_magic).of_getElem? hversion
      obtain ⟨hexpiresLen, rest₁, rfl, hat₁⟩ := hat.of_sliceAt hexpires
      obtain ⟨rest₂, rfl, hat₂⟩ := hat₁.of_getElem? hsubjectLen
      obtain ⟨hsubjectCount, hsubjectFits, rest₃, rfl, hat₃⟩ := restAt_of_textAt hat₂ hsubject
      obtain ⟨hscopeLenLen, rest₄, rfl, hat₄⟩ := hat₃.of_sliceAt hscopeLen
      obtain ⟨hscopeCount, hscopeFits, rest₅, rfl, hat₅⟩ := restAt_of_textAt hat₄ hscope
      obtain ⟨rest₆, rfl, hat₆⟩ := hat₅.of_blockAt hissuer
      obtain ⟨rest₇, rfl, hat₇⟩ := hat₆.of_blockAt hsignature
      have hnil : rest₇ = [] := by
        have hlen := hat₇.length_eq
        apply List.eq_nil_of_length_eq_zero
        omega
      have hexpiresEq : toBeBytes 8 (UInt64.ofNat (fromBeBytes expiresAt)).toNat = expiresAt := by
        have hlt : fromBeBytes expiresAt < 2 ^ 64 := by
          have hwidth := fromBeBytes_lt expiresAt
          rw [hexpiresLen] at hwidth
          omega
        rw [UInt64.toNat_ofNat', Nat.mod_eq_of_lt hlt, ← hexpiresLen, toBeBytes_fromBeBytes]
      have hscopeEq : toBeBytes 2 (utf8 scope).length = scopeLen := by
        rw [hscopeCount, ← hscopeLenLen, toBeBytes_fromBeBytes]
      refine ⟨⟨hsubjectFits, hscopeFits⟩, ?_⟩
      rw [encode, if_pos ⟨hsubjectFits.2, hscopeFits.2⟩, Option.some.injEq,
        ← List.take_append_drop 8 raw, hmagic, hrest, body, hexpiresEq, hsubjectCount,
        UInt8.ofNat_toNat, hscopeEq, hnil, List.append_nil]

theorem decode_eq_some_iff (raw : Bytes) (c : ExitCapability) :
    decode raw = some c ↔ c.Encodable ∧ encode c = some raw :=
  ⟨encode_of_decode, fun h => decode_of_encode h.1 h.2⟩

/-! ### Signing -/

theorem signingBytes_eq_some {subject scope : String} {expiresAt : UInt64} {b : Bytes}
    (h : signingBytes subject scope expiresAt = some b) :
    (Fits subject maxSubject ∧ Fits scope maxScope) ∧
      b = utf8 "GGN_EXITAUTH_V1" ++ body subject scope expiresAt [] := by
  rw [signingBytes] at h
  split at h
  · cases h
  · rename_i hfits
    simp only [not_or, not_lt] at hfits
    obtain ⟨hsubject, hsubjectLen, hscope, hscopeLen⟩ := hfits
    cases h
    exact ⟨⟨⟨hsubject, hsubjectLen⟩, hscope, hscopeLen⟩, rfl⟩

theorem body_inj {subject scope subject' scope' : String} {expiresAt expiresAt' : UInt64}
    {rest rest' : Bytes} (hsubject : Fits subject maxSubject) (hscope : Fits scope maxScope)
    (hsubject' : Fits subject' maxSubject) (hscope' : Fits scope' maxScope)
    (h : body subject scope expiresAt rest = body subject' scope' expiresAt' rest') :
    subject = subject' ∧ scope = scope' ∧ expiresAt = expiresAt' ∧ rest = rest' := by
  have hwidth (w m n : ℕ) : (toBeBytes w m).length = (toBeBytes w n).length := by
    rw [length_toBeBytes, length_toBeBytes]
  obtain ⟨hexpires, h⟩ := List.append_inj h (hwidth _ _ _)
  obtain ⟨hsubjectLen, h⟩ := List.cons.inj h
  have hsubjectEq : (utf8 subject).length = (utf8 subject').length := by
    rw [← toNat_length hsubject, hsubjectLen, toNat_length hsubject']
  obtain ⟨hsubjectText, h⟩ := List.append_inj h hsubjectEq
  obtain ⟨hscopeLen, h⟩ := List.append_inj h (hwidth _ _ _)
  have hscopeEq : (utf8 scope).length = (utf8 scope').length := by
    rw [← fromBeBytes_length hscope, hscopeLen, fromBeBytes_length hscope']
  obtain ⟨hscopeText, hrest⟩ := List.append_inj h hscopeEq
  have hexpiresNat := toBeBytes_inj expiresAt.toNat_lt expiresAt'.toNat_lt hexpires
  exact ⟨Net.utf8_inj hsubjectText, Net.utf8_inj hscopeText, UInt64.toNat_inj.mp hexpiresNat, hrest⟩

theorem signingBytes_inj {subject scope subject' scope' : String} {expiresAt expiresAt' : UInt64}
    {b : Bytes} (h : signingBytes subject scope expiresAt = some b)
    (h' : signingBytes subject' scope' expiresAt' = some b) :
    subject = subject' ∧ scope = scope' ∧ expiresAt = expiresAt' := by
  obtain ⟨⟨hsubject, hscope⟩, rfl⟩ := signingBytes_eq_some h
  obtain ⟨⟨hsubject', hscope'⟩, heq⟩ := signingBytes_eq_some h'
  have hbody := List.append_cancel_left heq
  obtain ⟨hs, hc, he, -⟩ := body_inj hsubject hscope hsubject' hscope' hbody
  exact ⟨hs, hc, he⟩

section

variable {publicKey : Octets 32} {sign : Bytes → Octets 64} {subject scope : String}
  {expiresAt : UInt64} {c : ExitCapability}

theorem issue_eq_some (h : issue publicKey sign subject scope expiresAt = some c) :
    c.Encodable ∧ ∃ signing, signingBytes subject scope expiresAt = some signing ∧
      c = ⟨publicKey, subject, scope, expiresAt, sign signing⟩ := by
  obtain ⟨signing, hsigning, hc⟩ := Option.bind_eq_some_iff.mp h
  cases hc
  exact ⟨(signingBytes_eq_some hsigning).1, signing, hsigning, rfl⟩

theorem exists_encode (h : issue publicKey sign subject scope expiresAt = some c) :
    ∃ raw, encode c = some raw := by
  obtain ⟨⟨hsubject, hscope⟩, -⟩ := issue_eq_some h
  exact ⟨_, if_pos ⟨hsubject.2, hscope.2⟩⟩

/-- A voucher that has travelled is good until it expires, for the peer and the scope it was issued
for. -/
theorem verify_decoded {verifyPeerSignature : Octets 32 → Bytes → Octets 64 → Bool}
    (hsound : ∀ msg, verifyPeerSignature publicKey msg (sign msg) = true) {raw : Bytes}
    (h : (issue publicKey sign subject scope expiresAt).bind encode = some raw) (now : UInt64)
    (expectedSubject requiredScope : String) :
    (decode raw).any (verify verifyPeerSignature · now expectedSubject requiredScope) = true ↔
      now ≤ expiresAt ∧ subject = expectedSubject ∧ scope = requiredScope := by
  obtain ⟨c, hissue, hraw⟩ := Option.bind_eq_some_iff.mp h
  obtain ⟨hencodable, signing, hsigning, rfl⟩ := issue_eq_some hissue
  rw [decode_of_encode hencodable hraw, Option.any_some, verify, hsigning]
  dsimp only
  rw [hsound]
  simp

/-- A voucher that was issued is read back as it was; a byte string that is read is the one encoding
of what it is read as; and two vouchers that sign the same bytes say the same. -/
theorem one_encoding :
    (∀ (publicKey : Octets 32) (sign : Bytes → Octets 64) (subject scope : String)
      (expiresAt : UInt64) (c : ExitCapability),
      issue publicKey sign subject scope expiresAt = some c →
        ∃ raw, encode c = some raw ∧ decode raw = some c) ∧
    (∀ (raw : Bytes) (c : ExitCapability), decode raw = some c → encode c = some raw) ∧
    ∀ (c c' : ExitCapability) (signing : Bytes),
      signingBytes c.subject c.scope c.expiresAt = some signing →
      signingBytes c'.subject c'.scope c'.expiresAt = some signing →
        c.subject = c'.subject ∧ c.scope = c'.scope ∧ c.expiresAt = c'.expiresAt := by
  refine ⟨?_, ?_, ?_⟩
  · intro publicKey sign subject scope expiresAt c hissue
    obtain ⟨raw, hraw⟩ := exists_encode hissue
    exact ⟨raw, hraw, decode_of_encode (issue_eq_some hissue).1 hraw⟩
  · intro raw c hdecode
    exact ((decode_eq_some_iff raw c).mp hdecode).2
  · intro c c' signing hc hc'
    exact signingBytes_inj hc hc'

end

def voucher : ExitCapability where
  issuerPk := List.Vector.replicate 32 7
  subject := "peer-123"
  scope := "example.test"
  expiresAt := 200
  signature := List.Vector.replicate 64 9

theorem one_encoding_of_voucher : ∃ raw, encode voucher = some raw ∧ decode raw = some voucher :=
  one_encoding.1 (List.Vector.replicate 32 7) (fun _ => List.Vector.replicate 64 9) "peer-123"
    "example.test" 200 voucher (by decide +kernel)

/-- The voucher is good until 200. -/
theorem verify_voucher :
    ∃ raw, encode voucher = some raw ∧
      (decode raw).any (verify (fun _ _ _ => true) · 200 "peer-123" "example.test") = true := by
  obtain ⟨raw, hraw⟩ : ∃ raw, encode voucher = some raw := ⟨_, rfl⟩
  have hissued : (issue voucher.issuerPk (fun _ => voucher.signature) "peer-123" "example.test"
      200).bind encode = some raw := hraw
  exact ⟨raw, hraw, (verify_decoded (fun _ => rfl) hissued 200 "peer-123" "example.test").mpr
    ⟨le_rfl, rfl, rfl⟩⟩

end ExitCapability

end Vantablack.Net
