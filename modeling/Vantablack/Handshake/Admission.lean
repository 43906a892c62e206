import Vantablack.Handshake.HandlePkt
import Vantablack.Handshake.RoundTrip

/-!
Who gets a session. Eight branches of `handle_pkt` lead to `register_peer_session`, each
with checks of its own. `OwnChecks` lists what a branch checks, `SkippedChecks` what it
does not, and a registration is admissible exactly when the skipped checks would have
passed too.
-/

namespace Vantablack.Handshake

open Lib Layers Receive Session HybridCipherSuite

variable {C : Crypto} {P : Primitives C}

/-- What is asked of every registration, at the moment it is made. -/
structure Admissible (cfg : NodeConfig) (unixNow : ℕ) (r : Registration P) : Prop where
  notRevoked : r.before.rejectHandshake unixNow r.fp = false
  notByzantine : r.before.byzantine cfg r.fp = false
  notSelf : r.fp ≠ cfg.fingerprint
  authorized : cfg.authorized r.fp = true
  room : r.fp ∉ r.before.sessions → r.after.sessions.size ≤ maxSessions

/-! ### The checks of the branches -/

def Verified (P : Primitives C) (material : Bytes) (m : Message) : Prop :=
  P.verifyPeerSignature m.identityPk material m.signature = true

/-- The handshake begun with the sender is one a plain response can finish. -/
def AwaitsKem512 (st : NodeState P) (src : SocketAddr) : Prop :=
  ∃ xSecret dk, st.pendingHs.lookup src = some (.kem512 xSecret dk)

/-- The handshake begun with the sender is a negotiated one, the response selects the suite
it must and its ciphertext decapsulates. -/
def AwaitsNegotiated (st : NodeState P) (src : SocketAddr) (resp : NegotiatedResponseBlob) :
    Prop :=
  ∃ xSecret kem512 kem768 offered,
    st.pendingHs.lookup src = some (.negotiated xSecret kem512 kem768 offered) ∧
      negotiateCipherSuite localSuites (offered.map wireId) = some resp.suite ∧
      (resp.suite = x25519MlKem512V2 ∨ (P.kyber768Decapsulate kem768 resp.kyberCt).isSome)

/-- The offer has a suite in common with us and a valid key for the strongest one. -/
def Negotiable (P : Primitives C) (coins : C.Coins) (hs : NegotiatedHandshakeBlob) : Prop :=
  ∃ selected e, negotiateCipherSuite localSuites (hs.supported.map wireId) = some selected ∧
    hs.kyberKeys.find? (fun e => e.1 == selected) = some e ∧
    (encapsulate P selected coins e.2).isSome

/-- What the branch of a message checks itself. -/
def OwnChecks (cfg : NodeConfig) (st : NodeState P) (d : Datagram C) (material : Bytes)
    (m : Message) : Prop :=
  Verified P material m ∧
    match m with
    | .negotiatedOffer hs =>
        Negotiable P d.fresh.coins hs ∧ fingerprint hs.identityPk ≠ cfg.fingerprint
    | .suiteOffer hs =>
        (encapsulate P hs.suite d.fresh.coins hs.kem).isSome ∧
          fingerprint hs.identityPk ≠ cfg.fingerprint
    | .uniformOffer hs =>
        (C.kyberEncapsulate d.fresh.coins hs.kem.toList).isSome ∧
          st.sessions.size < maxSessions ∧ fingerprint hs.identityPk ∉ st.sessions
    | .offer hs =>
        (C.kyberEncapsulate d.fresh.coins hs.kem.toList).isSome ∧
          st.sessions.size < maxSessions ∧ fingerprint hs.identityPk ≠ cfg.fingerprint ∧
          cfg.authorized (fingerprint hs.identityPk) = true ∧
          st.byzantine cfg (fingerprint hs.identityPk) = false ∧
          st.rejectHandshake d.fresh.unixNow (fingerprint hs.identityPk) = false
    | .negotiatedResponse resp => AwaitsNegotiated st d.src resp
    | .suiteResponse resp => resp.suite = x25519MlKem512V2 ∧ AwaitsKem512 st d.src
    | .uniformResponse _ => AwaitsKem512 st d.src
    | .response resp =>
        AwaitsKem512 st d.src ∧ st.byzantine cfg (fingerprint resp.identityPk) = false ∧
          st.rejectHandshake d.fresh.unixNow (fingerprint resp.identityPk) = false

/-- The session table has room for a session with `fp` once the stale ones are out. -/
def Room (st : NodeState P) (src : SocketAddr) (fp : String) : Prop :=
  fp ∉ st.sessions → (evictAll st.sessions (staleFps st.peers fp src)).size < maxSessions

/-- What the branch of a message does not check and should. -/
def SkippedChecks (cfg : NodeConfig) (st : NodeState P) (d : Datagram C) (m : Message) : Prop :=
  let fp := fingerprint m.identityPk
  let notRevoked := st.rejectHandshake d.fresh.unixNow fp = false
  let notByzantine := st.byzantine cfg fp = false
  let authorized := cfg.authorized fp = true
  match m with
  | .negotiatedOffer _ | .suiteOffer _ =>
      notRevoked ∧ notByzantine ∧ authorized ∧ Room st d.src fp
  | .uniformOffer _ => notRevoked ∧ notByzantine ∧ fp ≠ cfg.fingerprint ∧ authorized
  | .offer _ => True
  | .negotiatedResponse _ | .suiteResponse _ | .uniformResponse _ =>
      notRevoked ∧ notByzantine ∧ fp ≠ cfg.fingerprint ∧ authorized ∧ Room st d.src fp
  | .response _ => fp ≠ cfg.fingerprint ∧ authorized ∧ Room st d.src fp

/-! ### What a registration looks like -/

/-- A registration of the session with `fp`, made in the state `before`. -/
def IsRegistration (before : NodeState P) (fp : String) (src : SocketAddr)
    (r : Registration P) : Prop :=
  r.fp = fp ∧ r.before = before ∧ r.after = registerPeerSession before fp src r.session

variable {st : NodeState P} {src : SocketAddr} {r : Registration P}

theorem isRegistration_accept {sent : Option Bytes} {session : Session C}
    (h : (accept st src sent session).registered = some r) :
    IsRegistration st session.peerFingerprint src r := by
  cases h
  exact ⟨rfl, rfl, rfl⟩

theorem eq_true_of_not {b : Bool} (h : ¬ (!b) = true) : b = true := by
  simpa using h

variable {cfg : NodeConfig} {d : Datagram C} {material : Bytes}

theorem registered_negotiatedOffer {hs : NegotiatedHandshakeBlob}
    (h : (handleNegotiatedOffer cfg st d.src d.fresh hs material).registered = some r) :
    OwnChecks cfg st d material (.negotiatedOffer hs) ∧
      IsRegistration st (fingerprint hs.identityPk) d.src r := by
  unfold handleNegotiatedOffer at h
  split at h
  · cases h
  rename_i hverify
  split at h
  · cases h
  rename_i selected hselected
  split at h
  · cases h
  rename_i suite key hkey
  split at h
  · cases h
  rename_i ct ss hct
  dsimp only at h
  split at h
  · cases h
  rename_i hself
  refine ⟨⟨eq_true_of_not hverify, ⟨selected, _, hselected, hkey, ?_⟩, hself⟩,
    isRegistration_accept h⟩
  rw [hct]
  rfl

theorem registered_suiteOffer {hs : SuiteBlob}
    (h : (handleSuiteOffer cfg st d.src d.fresh hs material).registered = some r) :
    OwnChecks cfg st d material (.suiteOffer hs) ∧
      IsRegistration st (fingerprint hs.identityPk) d.src r := by
  unfold handleSuiteOffer at h
  split at h
  · cases h
  rename_i hverify
  split at h
  · cases h
  rename_i ct ss hct
  dsimp only at h
  split at h
  · cases h
  rename_i hself
  refine ⟨⟨eq_true_of_not hverify, ?_, hself⟩, isRegistration_accept h⟩
  rw [hct]
  rfl

theorem registered_uniformOffer {hs : HandshakeBlob}
    (h : (handleUniformOffer cfg st d.src d.fresh d.start hs material).registered = some r) :
    OwnChecks cfg st d material (.uniformOffer hs) ∧
      IsRegistration st (fingerprint hs.identityPk) d.src r := by
  unfold handleUniformOffer at h
  split at h
  · cases h
  rename_i hverify
  dsimp only at h
  split at h
  · cases h
  rename_i hroom
  split at h
  · cases h
  rename_i ct ss hct
  rw [Bool.or_eq_true, not_or, decide_eq_true_eq, decide_eq_true_eq, not_le] at hroom
  refine ⟨⟨eq_true_of_not hverify, ?_, hroom⟩, isRegistration_accept h⟩
  rw [hct]
  rfl

theorem registered_offer {hs : HandshakeBlob}
    (h : (handleOffer cfg st d.src d.fresh hs material).registered = some r) :
    OwnChecks cfg st d material (.offer hs) ∧
      IsRegistration { st with sessions := st.sessions.erase (fingerprint hs.identityPk) }
        (fingerprint hs.identityPk) d.src r := by
  unfold handleOffer at h
  split at h
  · cases h
  rename_i hroom
  dsimp only at h
  split at h
  · cases h
  rename_i hself
  unfold finishOffer at h
  dsimp only at h
  split at h
  · cases h
  rename_i hauth
  split at h
  · cases h
  rename_i hbyz
  split at h
  · cases h
  rename_i hrevoked
  split at h
  · cases h
  rename_i hverify
  split at h
  · cases h
  rename_i ct ss hct
  refine ⟨⟨eq_true_of_not hverify, ?_, not_le.mp hroom, hself, eq_true_of_not hauth,
    eq_false_of_ne_true hbyz, eq_false_of_ne_true hrevoked⟩, ?_⟩
  · rw [hct]
    rfl
  · cases h
    exact ⟨rfl, rfl, rfl⟩

theorem registered_takePending {finish : NodeState P → PendingHandshake P → Handled P}
    (h : (takePending st src finish).registered = some r) :
    ∃ pending, st.pendingHs.lookup src = some pending ∧
      (finish { st with pendingHs := st.pendingHs.erase src } pending).registered = some r := by
  unfold takePending at h
  split at h
  · cases h
  · exact ⟨_, by assumption, h⟩

theorem registered_negotiatedResponse {resp : NegotiatedResponseBlob}
    (h : (handleNegotiatedResponse cfg st d.src d.fresh resp material).registered = some r) :
    OwnChecks cfg st d material (.negotiatedResponse resp) ∧
      IsRegistration { st with pendingHs := st.pendingHs.erase d.src }
        (fingerprint resp.identityPk) d.src r := by
  unfold handleNegotiatedResponse at h
  split at h
  · cases h
  rename_i hverify
  obtain ⟨pending, hpending, h⟩ := registered_takePending h
  cases pending with
  | kem512 xSecret dk => cases h
  | negotiated xSecret kem512 kem768 offered =>
      simp only [finishNegotiatedResponse] at h
      split at h
      · cases h
      rename_i hsuite
      split at h
      · cases h
      rename_i ss hss
      refine ⟨⟨eq_true_of_not hverify, xSecret, kem512, kem768, offered, hpending,
        not_ne_iff.mp hsuite, ?_⟩, isRegistration_accept h⟩
      cases hs : resp.suite with
      | x25519MlKem512V2 => exact Or.inl rfl
      | x25519MlKem768V3 =>
          simp only [hs] at hss
          rw [hss]
          exact Or.inr rfl

theorem registered_suiteResponse {resp : SuiteBlob}
    (h : (handleSuiteResponse cfg st d.src d.fresh resp material).registered = some r) :
    OwnChecks cfg st d material (.suiteResponse resp) ∧
      IsRegistration { st with pendingHs := st.pendingHs.erase d.src }
        (fingerprint resp.identityPk) d.src r := by
  unfold handleSuiteResponse at h
  split at h
  · cases h
  rename_i hverify
  obtain ⟨pending, hpending, h⟩ := registered_takePending h
  cases pending with
  | negotiated xSecret kem512 kem768 offered => cases h
  | kem512 xSecret dk =>
      simp only [finishSuiteResponse] at h
      split at h
      · cases h
      · rename_i hsuite
        exact ⟨⟨eq_true_of_not hverify, hsuite, xSecret, dk, hpending⟩, isRegistration_accept h⟩

variable {resp : ResponseBlob}

theorem registered_finishResponse {legacy : Bool}
    (h : (takePending st d.src (finishResponse cfg d.src d.fresh legacy resp)).registered =
      some r) :
    AwaitsKem512 st d.src ∧ IsRegistration { st with pendingHs := st.pendingHs.erase d.src }
      (fingerprint resp.identityPk) d.src r := by
  obtain ⟨pending, hpending, h⟩ := registered_takePending h
  cases pending with
  | negotiated xSecret kem512 kem768 offered => cases h
  | kem512 xSecret dk => exact ⟨⟨xSecret, dk, hpending⟩, isRegistration_accept h⟩

theorem registered_uniformResponse
    (h : (handleUniformResponse cfg st d.src d.fresh resp material).registered = some r) :
    OwnChecks cfg st d material (.uniformResponse resp) ∧
      IsRegistration { st with pendingHs := st.pendingHs.erase d.src }
        (fingerprint resp.identityPk) d.src r := by
  unfold handleUniformResponse at h
  split at h
  · cases h
  rename_i hverify
  obtain ⟨hawaits, hreg⟩ := registered_finishResponse h
  exact ⟨⟨eq_true_of_not hverify, hawaits⟩, hreg⟩

theorem registered_response
    (h : (handleResponse cfg st d.src d.fresh resp material).registered = some r) :
    OwnChecks cfg st d material (.response resp) ∧
      IsRegistration { st with pendingHs := st.pendingHs.erase d.src }
        (fingerprint resp.identityPk) d.src r := by
  unfold handleResponse at h
  split at h
  · cases h
  rename_i hverify
  dsimp only at h
  split at h
  · cases h
  rename_i hbyz
  split at h
  · cases h
  rename_i hrevoked
  obtain ⟨hawaits, hreg⟩ := registered_finishResponse h
  exact ⟨⟨eq_true_of_not hverify, hawaits, eq_false_of_ne_true hbyz,
    eq_false_of_ne_true hrevoked⟩, hreg⟩

/-! ### Admissibility of a registration -/

variable {fp : String}

theorem mem_evictAll {ν : Type} {fps : List String} (h : fp ∉ fps) (t : Table String ν) :
    fp ∈ evictAll t fps ↔ fp ∈ t := by
  induction fps generalizing t with
  | nil => exact Iff.rfl
  | cons a fps ih =>
      rw [List.mem_cons, not_or] at h
      rw [evictAll, List.foldl_cons, ← evictAll, ih h.2, AList.mem_erase]
      exact and_iff_right h.1

theorem notMem_staleFps (peers : Table String SocketAddr) (fp : String) (src : SocketAddr) :
    fp ∉ staleFps peers fp src := by
  intro h
  obtain ⟨e, he, heq⟩ := List.mem_map.mp h
  have hp := (List.mem_filter.mp he).2
  simp [heq] at hp

theorem size_registerPeerSession_le_iff (session : Session C) :
    (fp ∉ st.sessions →
      (registerPeerSession st fp src session).sessions.size ≤ maxSessions) ↔ Room st src fp := by
  refine forall_congr' fun hnew => ?_
  have hnot : fp ∉ evictAll st.sessions (staleFps st.peers fp src) := by
    rwa [mem_evictAll (notMem_staleFps st.peers fp src)]
  rw [registerPeerSession, Table.size_insert_of_notMem hnot]
  exact Nat.succ_le_iff

theorem size_evictAll_le {ν : Type} (t : Table String ν) (fps : List String) :
    (evictAll t fps).size ≤ t.size := by
  induction fps generalizing t with
  | nil => exact le_rfl
  | cons a fps ih =>
      refine (ih (t.erase a)).trans ?_
      exact (List.kerase_sublist a t.entries).length_le

theorem room_of_size (h : st.sessions.size < maxSessions) : Room st src fp :=
  fun _ => (size_evictAll_le _ _).trans_lt h

theorem admissible_iff {unixNow : ℕ} {before : NodeState P} (h : IsRegistration before fp src r) :
    Admissible cfg unixNow r ↔ before.rejectHandshake unixNow fp = false ∧
      before.byzantine cfg fp = false ∧ fp ≠ cfg.fingerprint ∧ cfg.authorized fp = true ∧
      Room before src fp := by
  obtain ⟨rfl, rfl, hafter⟩ := h
  rw [← size_registerPeerSession_le_iff r.session, ← hafter]
  constructor
  · rintro ⟨h1, h2, h3, h4, h5⟩
    exact ⟨h1, h2, h3, h4, h5⟩
  · rintro ⟨h1, h2, h3, h4, h5⟩
    exact ⟨h1, h2, h3, h4, h5⟩

theorem handleMessage_registered {m : Message}
    (h : (handleMessage cfg st d material m).registered = some r) :
    OwnChecks cfg st d material m ∧
      (Admissible cfg d.fresh.unixNow r ↔ SkippedChecks cfg st d m) := by
  cases m with
  | negotiatedOffer hs =>
      obtain ⟨hown, hreg⟩ := registered_negotiatedOffer h
      refine ⟨hown, (admissible_iff hreg).trans ?_⟩
      have hself := hown.2.2
      simp only [SkippedChecks, Message.identityPk]
      tauto
  | suiteOffer hs =>
      obtain ⟨hown, hreg⟩ := registered_suiteOffer h
      refine ⟨hown, (admissible_iff hreg).trans ?_⟩
      have hself := hown.2.2
      simp only [SkippedChecks, Message.identityPk]
      tauto
  | uniformOffer hs =>
      obtain ⟨hown, hreg⟩ := registered_uniformOffer h
      refine ⟨hown, (admissible_iff hreg).trans ?_⟩
      have hroom : Room st d.src (fingerprint hs.identityPk) := room_of_size hown.2.2.1
      simp only [SkippedChecks, Message.identityPk]
      tauto
  | offer hs =>
      obtain ⟨hown, hreg⟩ := registered_offer h
      refine ⟨hown, (admissible_iff hreg).trans ?_⟩
      obtain ⟨_, _, hsize, hself, hauth, hbyz, hrevoked⟩ := hown
      have hroom : Room { st with sessions := st.sessions.erase (fingerprint hs.identityPk) } d.src
          (fingerprint hs.identityPk) := by
        refine room_of_size (lt_of_le_of_lt ?_ hsize)
        exact (List.kerase_sublist _ st.sessions.entries).length_le
      exact ⟨fun _ => trivial, fun _ => ⟨hrevoked, hbyz, hself, hauth, hroom⟩⟩
  | negotiatedResponse resp =>
      obtain ⟨hown, hreg⟩ := registered_negotiatedResponse h
      exact ⟨hown, (admissible_iff hreg).trans Iff.rfl⟩
  | suiteResponse resp =>
      obtain ⟨hown, hreg⟩ := registered_suiteResponse h
      exact ⟨hown, (admissible_iff hreg).trans Iff.rfl⟩
  | uniformResponse resp =>
      obtain ⟨hown, hreg⟩ := registered_uniformResponse h
      exact ⟨hown, (admissible_iff hreg).trans Iff.rfl⟩
  | response resp =>
      obtain ⟨hown, hreg⟩ := registered_response h
      refine ⟨hown, (admissible_iff hreg).trans ?_⟩
      obtain ⟨_, _, hbyz, hrevoked⟩ := hown
      exact ⟨fun hall => hall.2.2, fun hskip => ⟨hrevoked, hbyz, hskip⟩⟩

theorem exists_registered {m : Message} (h : OwnChecks cfg st d material m) :
    ∃ r, (handleMessage cfg st d material m).registered = some r := by
  obtain ⟨hverify, h⟩ := h
  simp only [Verified] at hverify
  cases m with
  | negotiatedOffer hs =>
      obtain ⟨⟨selected, e, hselected, hkey, hkem⟩, hself⟩ := h
      obtain ⟨⟨ct, ss⟩, hct⟩ := Option.isSome_iff_exists.mp hkem
      simp only [Message.identityPk, Message.signature] at hverify
      simp [handleMessage, handleNegotiatedOffer, hverify, hselected, hkey, hct, hself, accept]
  | suiteOffer hs =>
      obtain ⟨hkem, hself⟩ := h
      obtain ⟨⟨ct, ss⟩, hct⟩ := Option.isSome_iff_exists.mp hkem
      simp only [Message.identityPk, Message.signature] at hverify
      simp [handleMessage, handleSuiteOffer, hverify, hct, hself, accept]
  | uniformOffer hs =>
      obtain ⟨hkem, hsize, hnew⟩ := h
      obtain ⟨⟨ct, ss⟩, hct⟩ := Option.isSome_iff_exists.mp hkem
      simp only [Message.identityPk, Message.signature] at hverify
      simp [handleMessage, handleUniformOffer, hverify, hct, not_le.mpr hsize, hnew, accept]
  | offer hs =>
      obtain ⟨hkem, hsize, hself, hauth, hbyz, hrevoked⟩ := h
      obtain ⟨⟨ct, ss⟩, hct⟩ := Option.isSome_iff_exists.mp hkem
      have hbyz' : NodeState.byzantine
          { st with sessions := st.sessions.erase (fingerprint hs.identityPk) } cfg
            (fingerprint hs.identityPk) = false := hbyz
      have hrevoked' : NodeState.rejectHandshake
          { st with sessions := st.sessions.erase (fingerprint hs.identityPk) } d.fresh.unixNow
            (fingerprint hs.identityPk) = false := hrevoked
      simp only [Message.identityPk, Message.signature] at hverify
      simp [handleMessage, handleOffer, finishOffer, hverify, hct, not_le.mpr hsize, hself, hauth,
        hbyz', hrevoked', accept]
  | negotiatedResponse resp =>
      obtain ⟨xSecret, kem512, kem768, offered, hpending, hsuite, hkem⟩ := h
      simp only [Message.identityPk, Message.signature] at hverify
      simp only [handleMessage, handleNegotiatedResponse, hverify, takePending, hpending,
        finishNegotiatedResponse, hsuite]
      cases hs : resp.suite with
      | x25519MlKem512V2 => simp [accept]
      | x25519MlKem768V3 =>
          rw [hs] at hkem
          obtain ⟨ss, hss⟩ := Option.isSome_iff_exists.mp (hkem.resolve_left (by decide))
          simp [hss, accept]
  | suiteResponse resp =>
      obtain ⟨hsuite, xSecret, dk, hpending⟩ := h
      simp only [Message.identityPk, Message.signature] at hverify
      simp [handleMessage, handleSuiteResponse, hverify, takePending, hpending,
        finishSuiteResponse, hsuite, accept]
  | uniformResponse resp =>
      obtain ⟨xSecret, dk, hpending⟩ := h
      simp only [Message.identityPk, Message.signature] at hverify
      simp [handleMessage, handleUniformResponse, hverify, takePending, hpending, finishResponse,
        accept]
  | response resp =>
      obtain ⟨⟨xSecret, dk, hpending⟩, hbyz, hrevoked⟩ := h
      simp only [Message.identityPk, Message.signature] at hverify
      simp [handleMessage, handleResponse, hverify, hbyz, hrevoked, takePending, hpending,
        finishResponse, accept]

/-! ### Runs -/

/-- What happens to the tables of a node: a payload arrives, a handshake is begun, an
identity is revoked, an interaction is recorded, a session ends. -/
inductive Event (P : Primitives C) where
  | datagram (d : Datagram C)
  | initiate (t : SocketAddr) (xSecret : C.XSecret) (kem512 : C.KemSecret)
      (kem768 : P.Kem768Secret)
  | revoke (fp : String) (timestamp : ℕ)
  | observe (fp : String) (success : Bool)
  | close (fp : String) (forget : Bool)

namespace Event

def step (cfg : NodeConfig) (st : NodeState P) : Event P → NodeState P
  | datagram d => (handlePkt cfg st d).state
  | initiate t xSecret kem512 kem768 => initiateHandshake cfg st t xSecret kem512 kem768
  | revoke fp timestamp =>
      { st with revocationList := st.revocationList.map fun entries => entries.insert fp timestamp }
  | observe fp success => st.recordInteraction cfg fp success
  | close fp forget =>
      { st with
        sessions := st.sessions.erase fp
        peers := if forget then st.peers.erase fp else st.peers }

/-- Every session the event registers is admissible. -/
def AdmitsOnly (cfg : NodeConfig) (st : NodeState P) : Event P → Prop
  | datagram d => ∀ r, (handlePkt cfg st d).registered = some r →
      Admissible cfg d.fresh.unixNow r
  | _ => True

/-- A message that passes the checks of its branch passes the skipped ones too. -/
def SkipsNothing (cfg : NodeConfig) (st : NodeState P) : Event P → Prop
  | datagram d => ∀ m material, receive cfg.uniform d.ctr d.data = some (m, material) →
      OwnChecks cfg st d material m → SkippedChecks cfg st d m
  | _ => True

theorem admitsOnly_iff (cfg : NodeConfig) (st : NodeState P) (e : Event P) :
    e.AdmitsOnly cfg st ↔ e.SkipsNothing cfg st := by
  cases e with
  | datagram d =>
      constructor
      · intro hadmits m material hm hown
        obtain ⟨r, hr⟩ := exists_registered hown
        refine (handleMessage_registered hr).2.mp (hadmits r ?_)
        rw [handlePkt, hm, hr]
      · intro hskip r hr
        unfold handlePkt at hr
        split at hr
        · cases hr
        · rename_i m material hm
          obtain ⟨hown, hiff⟩ := handleMessage_registered hr
          exact hiff.mpr (hskip m material hm hown)
  | _ => exact Iff.rfl

end Event

/-- Along every run from every state, the registrations are all admissible exactly when each
message that passes the checks of its branch would have passed the ones the branch skips. -/
theorem registrations_admissible_iff (cfg : NodeConfig) (st : NodeState P)
    (events : List (Event P)) :
    Always (Event.step cfg) (Event.AdmitsOnly cfg) st events ↔
      Always (Event.step cfg) (Event.SkipsNothing cfg) st events :=
  Always.congr (Event.admitsOnly_iff cfg) st events

/-- The negotiated offer of a revoked peer is registered. -/
theorem revoked_peer_registered :
    let peer : Octets 32 := List.Vector.replicate 32 2
    let cfg : NodeConfig :=
      { identityPk := List.Vector.replicate 32 1, pqCommitment := List.Vector.replicate 32 3
        sign := fun _ => List.Vector.replicate 64 1, psk := none, uniform := false, hub := none }
    let st : NodeState .symbolic :=
      { sessions := ∅, peers := ∅, pendingHs := ∅
        revocationList := some (AList.singleton (fingerprint peer) 1000), reputation := none }
    let o := NegotiatedOffer.both (List.Vector.replicate 32 4) (List.Vector.replicate 1184 5)
      (List.Vector.replicate 800 6) (List.Vector.replicate 32 7)
    let material := negotiationFields o.supported o.x25519Pub (entriesOf o.kyberKeys) peer
      o.pqCommitment ++ [0]
    let d : Datagram .symbolicShares :=
      { ctr := 0, data := material ++ List.replicate 64 2
        src := { ip := .v4 (List.Vector.replicate 4 9), port := 4000 }
        fresh := { now := 0, unixNow := 2000, xSecret := List.Vector.replicate 32 8
                   coins := List.replicate 1088 0 }
        start := List.Vector.replicate 16 0 }
    ¬ Always (Event.step cfg) (Event.AdmitsOnly cfg) st [.datagram d] := by
  intro peer cfg st o material d h
  have hskip := (Event.admitsOnly_iff cfg st (.datagram d)).mp h.1
  have hmaterial := o.negotiationMaterial_eq peer
  have hreceive := receive_negotiatedOffer false peer (fun _ => List.Vector.replicate 64 2) o
    hmaterial
  have hown : OwnChecks cfg st d material (.negotiatedOffer
      { supported := o.supported, x25519Pub := o.x25519Pub, kyberKeys := o.kyberKeys,
        identityPk := peer, pqCommitment := o.pqCommitment,
        signature := List.Vector.replicate 64 2 }) := by
    have hsignature : (List.Vector.replicate 64 (2 : UInt8)).toList = peer.toList ++ peer.toList := by
      decide
    refine ⟨?_, ⟨x25519MlKem768V3, _, rfl, rfl, rfl⟩, by decide⟩
    exact decide_eq_true hsignature
  have hrevoked := (hskip _ material hreceive hown).1
  revert hrevoked
  decide

end Vantablack.Handshake
