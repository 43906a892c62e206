import Vantablack.Handshake.PqAuth
import Vantablack.Handshake.Tables

/-!
Honest nodes that run the negotiated handshake and the identity proof over a network that
belongs to the attacker. Any datagram may reach any node, at any time and any number of
times; a chunk of a proof may reach any session. What the attacker cannot do is in `Ideal`:
guess a fresh key share, or make a signature of an honest node.

A node sends its proof for a session it holds, whenever it likes. `handle_pq_auth_pdu` reads
the session, lets go of it and looks it up again when the proof is checked, so that is two
steps. Everything else is one.
-/

namespace Vantablack.Handshake

open Lib Layers Receive Session HybridCipherSuite

variable {C : Crypto} {P : Primitives C} {Q : BindingPrimitives C} {ι : Type}

/-! ### The negotiated branches -/

def Message.isNegotiated : Message → Bool
  | .negotiatedOffer _ | .negotiatedResponse _ => true
  | _ => false

def Message.x25519Pub : Message → Octets 32
  | .negotiatedOffer hs => hs.x25519Pub
  | .suiteOffer hs => hs.x25519Pub
  | .uniformOffer hs => hs.x25519Pub
  | .offer hs => hs.x25519Pub
  | .negotiatedResponse resp => resp.x25519Pub
  | .suiteResponse resp => resp.x25519Pub
  | .uniformResponse resp => resp.x25519Pub
  | .response resp => resp.x25519Pub

/-- The negotiated message in a datagram and the bytes it is signed over. -/
def negotiated (cfg : NodeConfig) (d : Datagram C) : Option (Message × Bytes) :=
  (receive cfg.uniform d.ctr d.data).filter fun x => x.1.isNegotiated

/-- `handle_pkt` on the two negotiated branches. -/
def handleNegotiated (cfg : NodeConfig) (st : NodeState P) (d : Datagram C) : Handled P :=
  match negotiated cfg d with
  | none => reject st
  | some (m, material) => handleMessage cfg st d material m

/-! ### The network -/

/-- The honest nodes, which negotiate and are committed to their ML-DSA keys. -/
structure System (Q : BindingPrimitives C) (ι : Type) where
  cfg : ι → NodeConfig
  pqPk : ι → Bytes
  negotiates : ∀ i, (cfg i).uniform = false
  committed : ∀ i, (cfg i).pqCommitment = Q.pqCommitment (pqPk i)

/-- A proof that is complete and about to be checked, with what was read from the session. -/
structure ProofCheck (C : Crypto) (ι : Type) where
  node : ι
  fp : String
  pinnedPk : Option Bytes
  pinnedPqCommitment : Option Bytes
  masterKey : C.Key
  binding : Bytes

/-- The nodes and the history: the key shares drawn by honest nodes, all shares that were on
the wire, what was signed, and the sessions registered. -/
structure Network (P : Primitives C) (ι : Type) where
  nodes : ι → NodeState P
  checks : List (ProofCheck C ι)
  drawn : List (ι × Octets 32)
  seen : List (Octets 32)
  signed : List (ι × Bytes)
  proofs : List (ι × C.Key × Bytes)
  registered : List (ι × Session C)

inductive NetworkAct (P : Primitives C) (ι : Type) where
  | initiate (i : ι) (t : SocketAddr) (xSecret : C.XSecret) (kem512 : C.KemSecret)
      (kem768 : P.Kem768Secret)
  | deliver (i : ι) (d : Datagram C)
  | prove (i : ι) (fp : String)
  | chunk (i : ι) (fp : String) (payload : Bytes)
  | conclude (k : ℕ)
  | operate (i : ι) (fp : String) (op : SessionOp C)
  | close (i : ι) (fp : String)

/-- A PDU without the signature at its end. -/
def unsigned (pdu : Bytes) : Bytes := pdu.take (pdu.length - 64)

def shareOf (P : Primitives C) (xSecret : C.XSecret) : Octets 32 :=
  ⟨C.xPublic xSecret, P.length_xPublic xSecret⟩

namespace Network

section Steps

variable [DecidableEq ι]

def session (w : Network P ι) (i : ι) (fp : String) : Option (Session C) :=
  (w.nodes i).sessions.lookup fp

def setNode (w : Network P ι) (i : ι) (st : NodeState P) : Network P ι :=
  { w with nodes := Function.update w.nodes i st }

@[simp] theorem nodes_setNode_self (w : Network P ι) (i : ι) (st : NodeState P) :
    (w.setNode i st).nodes i = st := by
  simp [setNode]

@[simp] theorem nodes_setNode_of_ne (w : Network P ι) {i j : ι} (h : j ≠ i) (st : NodeState P) :
    (w.setNode i st).nodes j = w.nodes j := by
  simp [setNode, h]

def setSession (w : Network P ι) (i : ι) (fp : String) (s : Session C) : Network P ι :=
  w.setNode i { w.nodes i with sessions := (w.nodes i).sessions.insert fp s }

def dropSession (w : Network P ι) (i : ι) (fp : String) : Network P ι :=
  w.setNode i { w.nodes i with sessions := (w.nodes i).sessions.erase fp }

/-- Begin a handshake with the fresh secrets. -/
def initiate (sys : System Q ι) (w : Network P ι) (i : ι) (t : SocketAddr) (xSecret : C.XSecret)
    (kem512 : C.KemSecret) (kem768 : P.Kem768Secret) : Network P ι :=
  let pdu := negotiatedOfferPdu (sys.cfg i) P xSecret kem512 kem768
  { w.setNode i (initiateHandshake (sys.cfg i) (w.nodes i) t xSecret kem512 kem768) with
    drawn := (i, shareOf P xSecret) :: w.drawn
    seen := shareOf P xSecret :: w.seen
    signed := (pdu.map fun pdu => (i, unsigned pdu)).toList ++ w.signed }

def deliver (sys : System Q ι) (w : Network P ι) (i : ι) (d : Datagram C) : Network P ι :=
  let done := handleNegotiated (sys.cfg i) (w.nodes i) d
  let shares := ((negotiated (sys.cfg i) d).map fun x => x.1.x25519Pub).toList
  { w.setNode i done.state with
    drawn := (i, d.fresh.xPub P) :: w.drawn
    seen := d.fresh.xPub P :: (shares ++ w.seen)
    signed := (done.sent.map fun pdu => (i, unsigned pdu)).toList ++ w.signed
    registered := (done.registered.map fun r => (i, r.session)).toList ++ w.registered }

/-- `send_pq_auth_proof`: sign the master key of the session. -/
def prove (sys : System Q ι) (w : Network P ι) (i : ι) (fp : String) : Network P ι :=
  match w.session i fp with
  | none => w
  | some s => { w with proofs := (i, s.masterKey, sys.pqPk i) :: w.proofs }

/-- `handle_pq_auth_pdu`, up to the check of a complete proof. -/
def chunk (w : Network P ι) (i : ι) (fp : String) (payload : Bytes) : Network P ι :=
  match w.session i fp, parsePqChunk payload with
  | some s, some (chunkIdx, totalChunks, data) =>
      if s.isPqAuthenticated then w
      else
        let (full, s') := s.storePqChunk chunkIdx totalChunks data
        let check (binding : Bytes) : ProofCheck C ι :=
          { node := i, fp := fp, pinnedPk := s.peerIdentityPk
            pinnedPqCommitment := s.peerPqCommitment, masterKey := s.masterKey
            binding := binding }
        { w.setSession i fp s' with checks := w.checks ++ (full.map check).toList }
  | _, _ => w

/-- The rest of it, on the session that now stands under the fingerprint. -/
def finishCheck (Q : BindingPrimitives C) (w : Network P ι) (c : ProofCheck C ι) : Network P ι :=
  match c.pinnedPk with
  | none => w.dropSession c.node c.fp
  | some pk =>
      match verifyHybridBinding Q pk c.pinnedPqCommitment c.masterKey c.binding with
      | .error _ => w.dropSession c.node c.fp
      | .ok pqPk =>
          match w.session c.node c.fp with
          | none => w
          | some s =>
              w.setSession c.node c.fp { s.setPqAuthenticated true with peerPqPk := some pqPk }

def conclude (Q : BindingPrimitives C) (w : Network P ι) (k : ℕ) : Network P ι :=
  match w.checks[k]? with
  | none => w
  | some c => finishCheck Q { w with checks := w.checks.eraseIdx k } c

/-- An operation on the ratchet of a session. -/
def operate (w : Network P ι) (i : ι) (fp : String) (op : SessionOp C) : Network P ι :=
  match w.session i fp with
  | none => w
  | some s => w.setSession i fp (op.run s)

def step (sys : System Q ι) (w : Network P ι) : NetworkAct P ι → Network P ι
  | .initiate i t xSecret kem512 kem768 => w.initiate sys i t xSecret kem512 kem768
  | .deliver i d => w.deliver sys i d
  | .prove i fp => w.prove sys i fp
  | .chunk i fp payload => w.chunk i fp payload
  | .conclude k => w.conclude Q k
  | .operate i fp op => w.operate i fp op
  | .close i fp => w.dropSession i fp

end Steps

/-- Nothing has happened yet. -/
def start (revocationList : ι → Option (Table String ℕ)) (reputation : ι → Option P.Reputation) :
    Network P ι :=
  { nodes := fun i =>
      { sessions := ∅, peers := ∅, pendingHs := ∅, revocationList := revocationList i
        reputation := reputation i }
    checks := [], drawn := [], seen := [], signed := [], proofs := [], registered := [] }

/-- What the attacker cannot do: a fresh share was never seen before, also not in the message
it is drawn for, and a signature that verifies under the key of an honest node is one that
this node has made. -/
def Ideal (sys : System Q ι) (w : Network P ι) : NetworkAct P ι → Prop
  | .initiate _ _ xSecret _ _ => shareOf P xSecret ∉ w.seen
  | .deliver i d =>
      d.fresh.xPub P ∉ w.seen ∧ ∀ x ∈ negotiated (sys.cfg i) d,
        d.fresh.xPub P ≠ x.1.x25519Pub ∧
          ∀ j, x.1.identityPk = (sys.cfg j).identityPk →
            P.verifyPeerSignature x.1.identityPk x.2 x.1.signature = true → (j, x.2) ∈ w.signed
  | .conclude k =>
      ∀ c ∈ w.checks[k]?, ∀ b ∈ parseBinding c.binding,
        ∀ j, b.edPk = (sys.cfg j).identityPk →
          Q.verifyEd b.edPk c.masterKey b.pqPk b.edSig = true →
          (j, c.masterKey, b.pqPk) ∈ w.proofs
  | _ => True

instance [Fintype ι] [DecidableEq ι] (sys : System Q ι) (w : Network P ι) :
    ∀ a, Decidable (w.Ideal sys a)
  | .initiate _ _ _ _ _ | .deliver _ _ | .conclude _ => by
      dsimp only [Ideal]
      infer_instance
  | .prove _ _ | .chunk _ _ _ | .operate _ _ _ | .close _ _ => inferInstanceAs (Decidable True)

/-! ### What a negotiated message does to a node -/

variable {st : NodeState P}

theorem lookup_registerPeerSession {fp fp' : String} {src : SocketAddr} {s s' : Session C}
    (h : (registerPeerSession st fp src s).sessions.lookup fp' = some s') :
    s' = s ∨ st.sessions.lookup fp' = some s' := by
  have hevict : ∀ (fps : List String) (t : Table String (Session C)),
      (evictAll t fps).lookup fp' = some s' → t.lookup fp' = some s' := by
    intro fps
    induction fps with
    | nil => exact fun t h => h
    | cons stale fps ih =>
        intro t h
        exact (Table.lookup_erase_eq_some.mp (ih (t.erase stale) h)).2
  rcases Table.lookup_insert_eq_some.mp h with ⟨_, hs⟩ | ⟨_, hold⟩
  · exact Or.inl hs.symm
  · exact Or.inr (hevict _ _ hold)

/-- The session a negotiated message leaves: as the responder to an offer, or as the initiator
whose pending handshake a response completes. -/
def Leaves (cfg : NodeConfig) (st : NodeState P) (d : Datagram C) (m : Message) (s : Session C) :
    Prop :=
  s.peerIdentityPk = some m.identityPk.toList ∧ s.peerPqCommitment.isSome = true ∧
    s.pqAuthState = 0 ∧ ∃ dh kem psk ct pqInitiator pqResponder,
      (m.identityPk ≠ cfg.identityPk ∧
        s.masterKey = P.deriveHybridMasterKeyWithTranscript s.cipherSuite dh kem psk m.x25519Pub
          (d.fresh.xPub P) ct pqInitiator pqResponder) ∨
      ∃ xSecret kem512 kem768 offered,
        st.pendingHs.lookup d.src = some (.negotiated xSecret kem512 kem768 offered) ∧
        negotiateCipherSuite localSuites (offered.map wireId) = some s.cipherSuite ∧
        s.masterKey = P.deriveHybridMasterKeyWithTranscript s.cipherSuite dh kem psk
          (shareOf P xSecret) m.x25519Pub ct pqInitiator pqResponder

variable {cfg : NodeConfig} {d : Datagram C} {r : Registration P}

theorem leaves_negotiatedOffer {hs : NegotiatedHandshakeBlob} {material : Bytes}
    (h : (handleNegotiatedOffer cfg st d.src d.fresh hs material).registered = some r) :
    Leaves cfg st d (.negotiatedOffer hs) r.session ∧
      (handleNegotiatedOffer cfg st d.src d.fresh hs material).state =
        registerPeerSession st r.session.peerFingerprint d.src r.session := by
  unfold handleNegotiatedOffer at h ⊢
  split at h
  · cases h
  rename_i hverify
  rw [if_neg hverify]
  split at h
  · cases h
  rename_i selected hselected
  split at h
  · cases h
  rename_i suite key hkey
  split at h
  · cases h
  rename_i ct ss hct
  dsimp only at h
  split at h
  · cases h
  rename_i hself
  dsimp only
  rw [if_neg hself]
  cases h
  refine ⟨⟨rfl, rfl, rfl, _, ss, _, ct, _, _, Or.inl ⟨?_, rfl⟩⟩, rfl⟩
  intro hown
  refine hself ?_
  rw [show hs.identityPk = cfg.identityPk from hown]
  rfl

theorem leaves_negotiatedResponse {resp : NegotiatedResponseBlob} {material : Bytes}
    (h : (handleNegotiatedResponse cfg st d.src d.fresh resp material).registered = some r) :
    Leaves cfg st d (.negotiatedResponse resp) r.session ∧
      (handleNegotiatedResponse cfg st d.src d.fresh resp material).state =
        registerPeerSession { st with pendingHs := st.pendingHs.erase d.src }
          r.session.peerFingerprint d.src r.session := by
  unfold handleNegotiatedResponse at h ⊢
  split at h
  · cases h
  rename_i hverify
  rw [if_neg hverify]
  unfold takePending at h ⊢
  split at h
  · cases h
  rename_i pending hpending
  cases pending with
  | kem512 xSecret dk => cases h
  | negotiated xSecret kem512 kem768 offered =>
      simp only [finishNegotiatedResponse] at h ⊢
      split at h
      · cases h
      rename_i hsuite
      rw [if_neg hsuite]
      split at h
      · cases h
      rename_i ss hss
      cases h
      exact ⟨⟨rfl, rfl, rfl, _, ss, _, _, _, _,
        Or.inr ⟨xSecret, kem512, kem768, offered, hpending, not_not.mp hsuite, rfl⟩⟩, rfl⟩

theorem handleNegotiated_rejected (h : (handleNegotiated cfg st d).registered = none) :
    (handleNegotiated cfg st d).state.sessions = st.sessions ∧
      ∀ t p, (handleNegotiated cfg st d).state.pendingHs.lookup t = some p →
        st.pendingHs.lookup t = some p := by
  unfold handleNegotiated at h ⊢
  split
  · exact ⟨rfl, fun _ _ hp => hp⟩
  rename_i m material hm
  rw [hm] at h
  obtain ⟨_, hneg⟩ := Option.filter_eq_some_iff.mp hm
  cases m with
  | negotiatedOffer hs =>
      simp only [handleMessage] at h ⊢
      rw [state_negotiatedOffer h]
      exact ⟨rfl, fun _ _ hp => hp⟩
  | negotiatedResponse resp =>
      simp only [handleMessage, handleNegotiatedResponse] at h ⊢
      split
      · exact ⟨rfl, fun _ _ hp => hp⟩
      rename_i hverify
      rw [if_neg hverify] at h
      unfold takePending at h ⊢
      split
      · exact ⟨rfl, fun _ _ hp => hp⟩
      rename_i pending hpending
      rw [hpending] at h
      rw [state_finishNegotiatedResponse _ pending h]
      exact ⟨rfl, fun _ _ hp => (Table.lookup_erase_eq_some.mp hp).2⟩
  | _ => cases hneg

theorem handleNegotiated_registered (h : (handleNegotiated cfg st d).registered = some r) :
    (∃ m material, negotiated cfg d = some (m, material) ∧ Leaves cfg st d m r.session) ∧
      (∀ fp s, (handleNegotiated cfg st d).state.sessions.lookup fp = some s →
        s = r.session ∨ st.sessions.lookup fp = some s) ∧
      ∀ t p, (handleNegotiated cfg st d).state.pendingHs.lookup t = some p →
        st.pendingHs.lookup t = some p := by
  unfold handleNegotiated at h ⊢
  split at h
  · cases h
  rename_i m material hm
  obtain ⟨_, hneg⟩ := Option.filter_eq_some_iff.mp hm
  cases m with
  | negotiatedOffer hs =>
      obtain ⟨hleaves, hstate⟩ := leaves_negotiatedOffer h
      refine ⟨⟨_, material, hm, hleaves⟩, ?_⟩
      simp only [handleMessage, hstate]
      exact ⟨fun _ _ hs => lookup_registerPeerSession hs, fun _ _ hp => hp⟩
  | negotiatedResponse resp =>
      obtain ⟨hleaves, hstate⟩ := leaves_negotiatedResponse h
      refine ⟨⟨_, material, hm, hleaves⟩, ?_⟩
      simp only [handleMessage, hstate]
      exact ⟨fun _ _ hs => lookup_registerPeerSession hs,
        fun _ _ hp => (Table.lookup_erase_eq_some.mp hp).2⟩
  | _ => cases hneg

end Network

end Vantablack.Handshake
