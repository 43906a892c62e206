import Vantablack.Layers.Kem

/-!
How `handle_pkt` of `main.rs` tells handshake messages apart: by the counter and the start
of the payload, in the order of its branches, and then by the parser of the branch. A branch
also recomputes the bytes it passes to `verify_peer_signature`.
-/

namespace Vantablack.Handshake

open Lib Layers

/-- The branches of `handle_pkt`, in their order; `application` stands for the rest. -/
inductive Branch where
  | negotiatedOffer
  | suiteOffer
  | uniformOffer
  | beacon
  | offer
  | negotiatedResponse
  | suiteResponse
  | uniformResponse
  | response
  | application
  deriving DecidableEq, Repr

def beaconPrefix : Bytes := utf8 "GHOST_BEACON____"

/-- The branch a payload takes; `uniform` is `uniform_handshake_enabled()`. -/
def branchOf (uniform : Bool) (ctr : ℕ) (data : Bytes) : Branch :=
  if ctr = 0 && handshakeNegotiationMagic.isPrefixOf data then .negotiatedOffer
  else if ctr = 0 && handshakeV3Magic.isPrefixOf data then .suiteOffer
  else if uniform && ctr = 0 && handshakeBlobLen ≤ data.length then .uniformOffer
  else if 112 ≤ data.length && beaconPrefix.isPrefixOf data then .beacon
  else if ctr = 0 && handshakeMagic.isPrefixOf data then .offer
  else if ctr = 1 && responseNegotiationMagic.isPrefixOf data then .negotiatedResponse
  else if ctr = 1 && responseV3Magic.isPrefixOf data then .suiteResponse
  else if uniform && ctr = 1 && responseBlobLen ≤ data.length then .uniformResponse
  else if ctr = 1 && responseMagic.isPrefixOf data then .response
  else .application

inductive Message where
  | negotiatedOffer (hs : NegotiatedHandshakeBlob)
  | suiteOffer (hs : SuiteBlob)
  | uniformOffer (hs : HandshakeBlob)
  | offer (hs : HandshakeBlob)
  | negotiatedResponse (resp : NegotiatedResponseBlob)
  | suiteResponse (resp : SuiteBlob)
  | uniformResponse (resp : ResponseBlob)
  | response (resp : ResponseBlob)
  deriving DecidableEq

namespace Message

def identityPk : Message → Octets 32
  | negotiatedOffer hs => hs.identityPk
  | suiteOffer hs => hs.identityPk
  | uniformOffer hs => hs.identityPk
  | offer hs => hs.identityPk
  | negotiatedResponse resp => resp.identityPk
  | suiteResponse resp => resp.identityPk
  | uniformResponse resp => resp.identityPk
  | response resp => resp.identityPk

def signature : Message → Octets 64
  | negotiatedOffer hs => hs.signature
  | suiteOffer hs => hs.signature
  | uniformOffer hs => hs.signature
  | offer hs => hs.signature
  | negotiatedResponse resp => resp.signature
  | suiteResponse resp => resp.signature
  | uniformResponse resp => resp.signature
  | response resp => resp.signature

end Message

/-- The message a branch reads from a payload and the bytes it then verifies the signature
over. -/
def Branch.parse (data : Bytes) : Branch → Option (Message × Bytes)
  | .negotiatedOffer => do
      let hs ← parseNegotiatedHandshakePdu data
      some (.negotiatedOffer hs, data.take (data.length - 64))
  | .suiteOffer => do
      let hs ← parseHandshakePduSuite data
      some (.suiteOffer hs, suiteMaterial hs.suite hs.x25519Pub hs.kem hs.identityPk)
  | .uniformOffer => do
      let wire := data.take handshakeBlobLen
      let hs ← parseUniformHandshakePdu wire
      some (.uniformOffer hs, ← uniformHandshakeSignedMaterial wire)
  | .offer => do
      if data.length < handshakeBlobLen then none
      let hs ← parseHandshakePdu (data.take handshakeBlobLen)
      some (.offer hs, hs.x25519Pub.toList ++ hs.kem.toList)
  | .negotiatedResponse => do
      let resp ← parseNegotiatedResponsePdu data
      some (.negotiatedResponse resp, data.take (negotiatedResponseLen resp.suite - 64))
  | .suiteResponse => do
      let resp ← parseResponsePduSuite data
      some (.suiteResponse resp,
        suiteMaterial resp.suite resp.x25519Pub resp.kem resp.identityPk)
  | .uniformResponse => do
      let wire := data.take responseBlobLen
      let resp ← parseUniformResponsePdu wire
      some (.uniformResponse resp, ← uniformResponseSignedMaterial wire)
  | .response => do
      if data.length < responseBlobLen then none
      let resp ← parseResponsePdu (data.take responseBlobLen)
      some (.response resp, resp.x25519Pub.toList ++ resp.kem.toList)
  | .beacon | .application => none

/-- What `handle_pkt` makes of a payload that arrives with the counter `ctr`. -/
def receive (uniform : Bool) (ctr : ℕ) (data : Bytes) : Option (Message × Bytes) :=
  (branchOf uniform ctr data).parse data

theorem isPrefixOf_append {magic rest : Bytes} : magic.isPrefixOf (magic ++ rest) = true :=
  List.isPrefixOf_iff_prefix.mpr (List.prefix_append magic rest)

theorem isPrefixOf_append_eq {magic start rest : Bytes} (h : magic.length = start.length) :
    magic.isPrefixOf (start ++ rest) = decide (start = magic) := by
  rw [Bool.eq_iff_iff, List.isPrefixOf_iff_prefix, decide_eq_true_iff]
  constructor
  · rintro ⟨t, ht⟩
    exact (List.append_inj ht h).1.symm
  · rintro rfl
    exact List.prefix_append start rest

end Vantablack.Handshake
