import Vantablack.Handshake.Admission

/-!
What a handshake message that is not accepted leaves behind. Most branches touch the tables
only when they register a session. Two kinds do not: a legacy offer evicts the session of the
peer it names before it is checked, and a response takes the pending handshake out before
it is known to fit.
-/

namespace Vantablack.Handshake

open Lib Layers Receive Session HybridCipherSuite

variable {C : Crypto} {P : Primitives C}

/-- The sessions, the peers' addresses and the pending handshakes are the same. -/
def SameTables (st st' : NodeState P) : Prop :=
  st'.sessions = st.sessions ∧ st'.peers = st.peers ∧ st'.pendingHs = st.pendingHs

/-- A payload that takes one of the handshake branches. -/
def Branch.isHandshake : Branch → Bool
  | .beacon | .application => false
  | _ => true

/-- The message reaches the point where its branch removes an entry, and there is one. -/
def Removes (cfg : NodeConfig) (st : NodeState P) (d : Datagram C) (material : Bytes)
    (m : Message) : Prop :=
  match m with
  | .offer hs =>
      st.sessions.size < maxSessions ∧ fingerprint hs.identityPk ≠ cfg.fingerprint ∧
        fingerprint hs.identityPk ∈ st.sessions
  | .negotiatedResponse _ | .suiteResponse _ | .uniformResponse _ =>
      Verified P material m ∧ d.src ∈ st.pendingHs
  | .response resp =>
      Verified P material m ∧ st.byzantine cfg (fingerprint resp.identityPk) = false ∧
        st.rejectHandshake d.fresh.unixNow (fingerprint resp.identityPk) = false ∧
        d.src ∈ st.pendingHs
  | _ => False

theorem sameTables_refl (st : NodeState P) : SameTables st st := ⟨rfl, rfl, rfl⟩

theorem erase_eq_iff {κ ν : Type} [DecidableEq κ] {t : Table κ ν} {k : κ} :
    t.erase k = t ↔ k ∉ t := by
  constructor
  · intro h hmem
    rw [← h, AList.mem_erase] at hmem
    exact hmem.1 rfl
  · exact Table.erase_of_notMem

/-! ### Offers -/

variable {cfg : NodeConfig} {st : NodeState P} {d : Datagram C} {material : Bytes}

theorem state_negotiatedOffer {hs : NegotiatedHandshakeBlob}
    (h : (handleNegotiatedOffer cfg st d.src d.fresh hs material).registered = none) :
    (handleNegotiatedOffer cfg st d.src d.fresh hs material).state = st := by
  unfold handleNegotiatedOffer at h ⊢
  split
  · rfl
  split
  · rfl
  split
  · rfl
  split
  · rfl
  dsimp only
  split
  · rfl
  · simp_all [accept]

theorem state_suiteOffer {hs : SuiteBlob}
    (h : (handleSuiteOffer cfg st d.src d.fresh hs material).registered = none) :
    (handleSuiteOffer cfg st d.src d.fresh hs material).state = st := by
  unfold handleSuiteOffer at h ⊢
  split
  · rfl
  split
  · rfl
  dsimp only
  split
  · rfl
  · simp_all [accept]

variable {hs : HandshakeBlob}

theorem state_uniformOffer
    (h : (handleUniformOffer cfg st d.src d.fresh d.start hs material).registered = none) :
    (handleUniformOffer cfg st d.src d.fresh d.start hs material).state = st := by
  unfold handleUniformOffer at h ⊢
  split
  · rfl
  dsimp only
  split
  · rfl
  split
  · rfl
  · simp_all [accept]

variable {src : SocketAddr} {r : Fresh C}

theorem sameTables_finishOffer (h : (finishOffer cfg st src r hs material).registered = none) :
    SameTables st (finishOffer cfg st src r hs material).state := by
  unfold finishOffer at h ⊢
  dsimp only at h ⊢
  split
  · exact sameTables_refl st
  split
  · exact sameTables_refl st
  split
  · exact sameTables_refl st
  split
  · exact sameTables_refl st
  split
  · exact sameTables_refl st
  · simp_all [accept]

theorem sameTables_offer_iff
    (h : (handleOffer cfg st d.src d.fresh hs material).registered = none) :
    SameTables st (handleOffer cfg st d.src d.fresh hs material).state ↔
      ¬ Removes cfg st d material (.offer hs) := by
  unfold handleOffer at h ⊢
  split
  · rename_i hfull
    exact iff_of_true (sameTables_refl st) fun hr => absurd hr.1 (not_lt.mpr hfull)
  rename_i hroom
  dsimp only at h ⊢
  split
  · rename_i hself
    exact iff_of_true (sameTables_refl st) fun hr => hr.2.1 hself
  rename_i hself
  rw [if_neg hroom, if_neg hself] at h
  obtain ⟨hsessions, hpeers, hpending⟩ := sameTables_finishOffer h
  have hremoves : Removes cfg st d material (.offer hs) ↔
      fingerprint hs.identityPk ∈ st.sessions :=
    ⟨fun hr => hr.2.2, fun hmem => ⟨not_le.mp hroom, hself, hmem⟩⟩
  rw [hremoves, ← erase_eq_iff]
  constructor
  · intro hsame
    exact hsessions.symm.trans hsame.1
  · intro herase
    exact ⟨hsessions.trans herase, hpeers, hpending⟩

/-! ### Responses -/

theorem sameTables_takePending_iff {finish : NodeState P → PendingHandshake P → Handled P}
    (hfinish : ∀ st pending, (finish st pending).registered = none → (finish st pending).state = st)
    (h : (takePending st src finish).registered = none) :
    SameTables st (takePending st src finish).state ↔ src ∉ st.pendingHs := by
  unfold takePending at h ⊢
  split
  · rename_i hnone
    exact iff_of_true (sameTables_refl st) (AList.lookup_eq_none.mp hnone)
  · rename_i pending hsome
    rw [hsome] at h
    rw [hfinish _ _ h, ← erase_eq_iff]
    exact ⟨fun hsame => hsame.2.2, fun herase => ⟨rfl, rfl, herase⟩⟩

theorem state_finishNegotiatedResponse {resp : NegotiatedResponseBlob} (st : NodeState P)
    (pending : PendingHandshake P)
    (h : (finishNegotiatedResponse cfg src r resp st pending).registered = none) :
    (finishNegotiatedResponse cfg src r resp st pending).state = st := by
  cases pending with
  | kem512 xSecret dk => rfl
  | negotiated xSecret kem512 kem768 offered =>
      simp only [finishNegotiatedResponse] at h ⊢
      split
      · rfl
      split
      · rfl
      · simp_all [accept]

theorem state_finishSuiteResponse {resp : SuiteBlob} (st : NodeState P)
    (pending : PendingHandshake P)
    (h : (finishSuiteResponse cfg src r resp st pending).registered = none) :
    (finishSuiteResponse cfg src r resp st pending).state = st := by
  cases pending with
  | negotiated xSecret kem512 kem768 offered => rfl
  | kem512 xSecret dk =>
      simp only [finishSuiteResponse] at h ⊢
      split
      · rfl
      · simp_all [accept]

theorem state_finishResponse {legacy : Bool} {resp : ResponseBlob} (st : NodeState P)
    (pending : PendingHandshake P)
    (h : (finishResponse cfg src r legacy resp st pending).registered = none) :
    (finishResponse cfg src r legacy resp st pending).state = st := by
  cases pending with
  | negotiated xSecret kem512 kem768 offered => rfl
  | kem512 xSecret dk => cases h

theorem sameTables_response_iff {m : Message}
    {finish : NodeState P → PendingHandshake P → Handled P}
    (hfinish : ∀ st pending, (finish st pending).registered = none → (finish st pending).state = st)
    (h : (if !P.verifyPeerSignature m.identityPk material m.signature then reject st
      else takePending st src finish).registered = none) :
    SameTables st (if !P.verifyPeerSignature m.identityPk material m.signature then reject st
      else takePending st src finish).state ↔ ¬ (Verified P material m ∧ src ∈ st.pendingHs) := by
  split
  · rename_i hbad
    refine iff_of_true (sameTables_refl st) fun hr => ?_
    rw [hr.1] at hbad
    cases hbad
  · rename_i hgood
    rw [if_neg hgood] at h
    rw [sameTables_takePending_iff hfinish h]
    exact ⟨fun hnot hr => hnot hr.2, fun hnot hmem => hnot ⟨eq_true_of_not hgood, hmem⟩⟩

theorem sameTables_handleMessage_iff {m : Message}
    (h : (handleMessage cfg st d material m).registered = none) :
    SameTables st (handleMessage cfg st d material m).state ↔ ¬ Removes cfg st d material m := by
  have hsame : (handleMessage cfg st d material m).state = st →
      SameTables st (handleMessage cfg st d material m).state := by
    intro heq
    rw [heq]
    exact sameTables_refl st
  cases m with
  | negotiatedOffer hs => exact iff_of_true (hsame (state_negotiatedOffer h)) id
  | suiteOffer hs => exact iff_of_true (hsame (state_suiteOffer h)) id
  | uniformOffer hs => exact iff_of_true (hsame (state_uniformOffer h)) id
  | offer hs => exact sameTables_offer_iff h
  | negotiatedResponse resp =>
      exact sameTables_response_iff (m := .negotiatedResponse resp)
        state_finishNegotiatedResponse h
  | suiteResponse resp =>
      exact sameTables_response_iff (m := .suiteResponse resp) state_finishSuiteResponse h
  | uniformResponse resp =>
      exact sameTables_response_iff (m := .uniformResponse resp) state_finishResponse h
  | response resp =>
      -- the two checks stand between the signature and the pending handshake
      simp only [handleMessage, handleResponse] at h ⊢
      by_cases hbyz : st.byzantine cfg (fingerprint resp.identityPk) = true
      · simp only [hbyz, if_true, ite_self] at h ⊢
        refine iff_of_true (sameTables_refl st) fun hr => ?_
        rw [hr.2.1] at hbyz
        cases hbyz
      by_cases hrevoked :
          st.rejectHandshake d.fresh.unixNow (fingerprint resp.identityPk) = true
      · simp only [hbyz, hrevoked, if_true, ite_self] at h ⊢
        refine iff_of_true (sameTables_refl st) fun hr => ?_
        rw [hr.2.2.1] at hrevoked
        cases hrevoked
      simp only [hbyz, hrevoked, Bool.false_eq_true, if_false] at h ⊢
      refine (sameTables_response_iff (m := .response resp) state_finishResponse h).trans ?_
      have hpass : st.byzantine cfg (fingerprint resp.identityPk) = false ∧
          st.rejectHandshake d.fresh.unixNow (fingerprint resp.identityPk) = false :=
        ⟨eq_false_of_ne_true hbyz, eq_false_of_ne_true hrevoked⟩
      exact not_congr ⟨fun hr => ⟨hr.1, hpass.1, hpass.2, hr.2⟩, fun hr => ⟨hr.1, hr.2.2.2⟩⟩

/-- A handshake message that is not accepted leaves the tables as they were exactly when its
branch had nothing to remove on the way. -/
theorem rejected_tables_unchanged_iff (cfg : NodeConfig) (st : NodeState P) (d : Datagram C)
    (_hbranch : (branchOf cfg.uniform d.ctr d.data).isHandshake = true)
    (hrejected : (handlePkt cfg st d).registered = none) :
    SameTables st (handlePkt cfg st d).state ↔
      ∀ m material, receive cfg.uniform d.ctr d.data = some (m, material) →
        ¬ Removes cfg st d material m := by
  unfold handlePkt at hrejected ⊢
  cases hm : receive cfg.uniform d.ctr d.data with
  | none => exact iff_of_true (sameTables_refl st) fun m material hnone => by cases hnone
  | some x =>
      obtain ⟨m, material⟩ := x
      rw [hm] at hrejected
      rw [sameTables_handleMessage_iff hrejected]
      constructor
      · intro hkeep m' material' heq
        cases heq
        exact hkeep
      · intro hkeep
        exact hkeep m material rfl

section Forged

/-- A node with one session, with the peer whose identity is 32 times the byte 2. -/
def oneSession : NodeState .symbolic :=
  { sessions := AList.singleton (fingerprint (List.Vector.replicate 32 2))
      (Session.newWithRole (.master 0) "peer" .responder 0)
    peers := ∅, pendingHs := ∅, revocationList := none, reputation := none }

/-- A node with identity 32 times the byte 1, which is no hub. -/
def plainConfig : NodeConfig :=
  { identityPk := List.Vector.replicate 32 1, pqCommitment := List.Vector.replicate 32 3
    sign := fun _ => List.Vector.replicate 64 1, psk := none, uniform := false, hub := none }

/-- A legacy offer that names `peer`, with a signature of zeros. -/
def forgedOffer (peer : Octets 32) : Datagram .symbolicShares :=
  { ctr := 0
    data := buildHandshakePdu peer (fun _ => List.Vector.replicate 64 0)
      (List.Vector.replicate 32 4) (List.Vector.replicate 800 5)
    src := { ip := .v4 (List.Vector.replicate 4 9), port := 4000 }
    fresh := { now := 0, unixNow := 0, xSecret := List.Vector.replicate 32 8, coins := [] }
    start := List.Vector.replicate 16 0 }

theorem forgedOffer_refused (peer : Octets 32) (st : NodeState .symbolic)
    (hpeer : peer ≠ List.Vector.replicate 32 0) :
    ∃ hs material, hs.identityPk = peer ∧
      receive false 0 (forgedOffer peer).data = some (.offer hs, material) ∧
      handlePkt plainConfig st (forgedOffer peer) =
        handleMessage plainConfig st (forgedOffer peer) material (.offer hs) ∧
      (handlePkt plainConfig st (forgedOffer peer)).registered = none := by
  have hreceive := (receive_offer_iff false peer (fun _ => List.Vector.replicate 64 0)
    (List.Vector.replicate 32 4) (List.Vector.replicate 800 5)).mpr rfl
  refine ⟨_, _, rfl, hreceive, ?_⟩
  rw [handlePkt, show receive plainConfig.uniform (forgedOffer peer).ctr (forgedOffer peer).data =
    _ from hreceive]
  refine ⟨rfl, ?_⟩
  refine Option.eq_none_iff_forall_ne_some.mpr fun r hr => ?_
  have hverified := of_decide_eq_true (handleMessage_registered hr).1.1
  have hzeros : List.replicate 64 (0 : UInt8) = List.replicate 32 0 ++ List.replicate 32 0 := rfl
  refine hpeer (List.Vector.toList_injective ?_)
  have hlength : (List.replicate 32 (0 : UInt8)).length = peer.toList.length :=
    List.length_replicate.trans peer.toList_length.symm
  exact (List.append_inj (hzeros.symm.trans hverified) hlength).1.symm

theorem forgedOffer_isHandshake (peer : Octets 32) (st : NodeState .symbolic)
    (hpeer : peer ≠ List.Vector.replicate 32 0) :
    (branchOf plainConfig.uniform (forgedOffer peer).ctr (forgedOffer peer).data).isHandshake =
      true := by
  obtain ⟨hs, material, -, hreceive, -, -⟩ := forgedOffer_refused peer st hpeer
  rw [show branchOf plainConfig.uniform (forgedOffer peer).ctr (forgedOffer peer).data = _ from
    branch_of_receive hreceive]
  rfl

/-- A forged offer in the name of a stranger leaves no trace. -/
theorem forged_offer_of_stranger :
    let d := forgedOffer (List.Vector.replicate 32 6)
    (handlePkt plainConfig oneSession d).registered = none ∧
      SameTables oneSession (handlePkt plainConfig oneSession d).state := by
  intro d
  have hpeer : List.Vector.replicate 32 (6 : UInt8) ≠ List.Vector.replicate 32 0 := by decide
  obtain ⟨hs, material, hidentity, hreceive, -, hrejected⟩ :=
    forgedOffer_refused _ oneSession hpeer
  refine ⟨hrejected, (rejected_tables_unchanged_iff plainConfig oneSession d
    (forgedOffer_isHandshake _ oneSession hpeer) hrejected).mpr ?_⟩
  intro m material' hm hremoves
  rw [show receive plainConfig.uniform d.ctr d.data = _ from hreceive] at hm
  cases hm
  have hmem := hremoves.2.2
  rw [hidentity] at hmem
  revert hmem
  decide

/-- A forged offer in the name of a peer ends the session with that peer. -/
theorem forged_offer_evicts_session :
    let d := forgedOffer (List.Vector.replicate 32 2)
    (branchOf plainConfig.uniform d.ctr d.data).isHandshake = true ∧
      (handlePkt plainConfig oneSession d).registered = none ∧
      ¬ SameTables oneSession (handlePkt plainConfig oneSession d).state := by
  intro d
  have hpeer : List.Vector.replicate 32 (2 : UInt8) ≠ List.Vector.replicate 32 0 := by decide
  obtain ⟨hs, material, hidentity, -, hhandled, hrejected⟩ :=
    forgedOffer_refused _ oneSession hpeer
  refine ⟨forgedOffer_isHandshake _ oneSession hpeer, hrejected, ?_⟩
  rw [hhandled] at hrejected ⊢
  rw [sameTables_handleMessage_iff hrejected, not_not]
  refine ⟨(by decide : 1 < 512), ?_, ?_⟩
  · rw [hidentity]
    decide
  · rw [hidentity]
    decide

end Forged

end Vantablack.Handshake
