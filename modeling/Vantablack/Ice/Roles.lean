import Vantablack.Lib.Runs
import Vantablack.Ice.Checks

/-!
Two agents that may start in the same role. Everything they send stays in transit: a datagram can
be delivered at any later time, any number of times or never, and from whatever address the path
shows.
-/

namespace Vantablack.Ice

open Lib Layers Receive Net Stun IceAgent

inductive Side where
  | left
  | right
  deriving DecidableEq

def Side.peer : Side → Side
  | left => right
  | right => left

@[simp] theorem Side.peer_peer (s : Side) : s.peer.peer = s := by
  cases s <;> rfl

theorem Side.peer_ne (s : Side) : s.peer ≠ s := by
  cases s <;> decide

theorem Side.eq_or_eq_peer (s t : Side) : s = t ∨ s = t.peer := by
  cases s <;> cases t <;> decide

def hostAddr (i : UInt8) : SocketAddr :=
  { ip := .v4 ⟨[192, 168, 1, i], rfl⟩, port := 5000 }

def credentials : Side → IceCredentials
  | .left => ⟨"left", "left-password-0123456789"⟩
  | .right => ⟨"right", "right-password-012345678"⟩

theorem valid_credentials (s : Side) : (credentials s).Valid := by
  unfold IceCredentials.Valid
  cases s <;> decide

/-- An agent on a local network, with its check list formed. -/
def hostAgent (s : Side) (role : IceRole) (tieBreaker : UInt64) (hosts peerHosts : List UInt8) :
    IceAgent :=
  let a := (new role tieBreaker (credentials s)).setRemoteCredentials (credentials s.peer)
  let a := hosts.foldl (fun a i => a.addHostCandidate (hostAddr i) (hostAddr i)) a
  let a := peerHosts.foldl (fun a i => a.addRemoteCandidate
    (Candidate.new .host (hostAddr i) (hostAddr i) defaultComponent none)) a
  a.formPairs

theorem mem_update_append {α : Type} {f : Side → List α} {s t : Side} {l : List α} {x : α} :
    x ∈ Function.update f s (f s ++ l) t ↔ x ∈ f t ∨ t = s ∧ x ∈ l := by
  by_cases ht : t = s
  · subst ht
    rw [Function.update_self, List.mem_append]
    simp only [true_and]
  · rw [Function.update_of_ne ht]
    simp only [ht, false_and, or_false]

/-- The two agents and what each has sent so far. `flips` and `heard` are bookkeeping: how often
the role of a side changed, and whether it has processed a request of its peer. -/
structure Negotiation where
  agent : Side → IceAgent
  requests : Side → List Bytes
  responses : Side → List Bytes
  flips : Side → ℕ
  heard : Side → Bool

namespace Negotiation

inductive Act where
  | nextCheck (s : Side)
  | retransmit (s : Side) (idx : ℕ)
  | failPair (s : Side) (idx : ℕ)
  | buildCheck (s : Side) (idx : ℕ) (nominate : Bool) (txid : TransactionId) (now : ℕ)
  /-- A side is handed the `n`-th request of its peer. -/
  | deliverRequest (s : Side) (n : ℕ) (src : SocketAddr) (now : ℕ)
  /-- A side is handed the `n`-th response of its peer. -/
  | deliverResponse (s : Side) (n : ℕ) (src : SocketAddr) (now : ℕ)

/-- The datagram that answers a check, if there is one. -/
def responseOf : Except IceError (Option CheckOutcome) → List Bytes
  | .ok (some outcome) => outcome.response.toList
  | _ => []

def setAgent (w : Negotiation) (s : Side) (a : IceAgent) : Negotiation :=
  { w with agent := Function.update w.agent s a }

@[simp] theorem agent_setAgent_self (w : Negotiation) (s : Side) (a : IceAgent) :
    (w.setAgent s a).agent s = a := Function.update_self ..

theorem agent_setAgent_of_ne {s t : Side} (h : t ≠ s) (w : Negotiation) (a : IceAgent) :
    (w.setAgent s a).agent t = w.agent t := Function.update_of_ne h ..

variable (d : Digests)

def receive (w : Negotiation) (s : Side) (raw : Bytes) (src : SocketAddr) (now : ℕ) : Negotiation :=
  let (a, result) := (w.agent s).handleCheck d raw src now
  { w.setAgent s a with
    responses := Function.update w.responses s (w.responses s ++ responseOf result)
    flips := Function.update w.flips s
      (w.flips s + if a.role = (w.agent s).role then 0 else 1) }

def step (w : Negotiation) : Act → Negotiation
  | .nextCheck s => w.setAgent s (w.agent s).nextCheck.1
  | .retransmit s idx => w.setAgent s ((w.agent s).retransmit idx).1
  | .failPair s idx => w.setAgent s ((w.agent s).failPair idx)
  | .buildCheck s idx nominate txid now =>
      let (a, result) := (w.agent s).buildCheck d idx nominate txid now
      { w.setAgent s a with
        requests := Function.update w.requests s (w.requests s ++ result.toOption.toList) }
  | .deliverRequest s n src now =>
      match (w.requests s.peer)[n]? with
      | none => w
      | some raw =>
          { w.receive d s raw src now with heard := Function.update w.heard s true }
  | .deliverResponse s n src now =>
      match (w.responses s.peer)[n]? with
      | none => w
      | some raw => w.receive d s raw src now

/-- Two honest agents that hold each other's credentials, with different tie-breakers, before
anything is sent. Their roles are arbitrary. -/
structure Start (w : Negotiation) : Prop where
  credentials : ∀ s, (w.agent s).remoteCredentials = some (w.agent s.peer).localCredentials
  valid : ∀ s, (w.agent s).localCredentials.Valid
  tieBreakers : (w.agent .left).tieBreaker ≠ (w.agent .right).tieBreaker
  requests : ∀ s, w.requests s = []
  responses : ∀ s, w.responses s = []
  flips : ∀ s, w.flips s = 0
  heard : ∀ s, w.heard s = false

def Opposite (w : Negotiation) : Prop :=
  (w.agent .left).role ≠ (w.agent .right).role

/-! ### What a datagram can do -/

/-- A request that a holder of the key reads as claiming a role with a tie-breaker. -/
def Claims (raw key : Bytes) (role : IceRole) (tie : UInt64) : Prop :=
  ∃ m : Message, m.Sealable ∧ m.typ = .new .binding .request ∧ raw = m.encodeWithIntegrity d key ∧
    (∀ r, claims (m.sealed d key) r = decide (r = role)) ∧
      peerTie (m.sealed d key) = tie

variable {a : IceAgent} {raw : Bytes}

theorem claims_of_buildCheck {remote : IceCredentials} {idx : ℕ} {nominate : Bool}
    {txid : TransactionId} {now : ℕ} (hcreds : a.remoteCredentials = some remote)
    (hremote : remote.Valid) (hlocal : a.localCredentials.Valid)
    (h : (a.buildCheck d idx nominate txid now).2 = .ok raw) :
    Claims d raw (utf8 remote.password) a.role a.tieBreaker := by
  unfold IceAgent.buildCheck at h
  rw [hcreds] at h
  split at h
  · cases h
  · rename_i pair _
    cases h
    exact ⟨_, sealable_checkMessage pair nominate txid hremote hlocal,
      typ_checkMessage pair nominate txid a remote, rfl,
      claims_sealed pair nominate txid d a remote _,
      peerTie_sealed pair nominate txid d a remote _⟩

theorem party_handleCheck_of_claims {role : IceRole} {tie : UInt64}
    (h : Claims d raw (utf8 a.localCredentials.password) role tie) (src : SocketAddr) (now : ℕ) :
    (a.handleCheck d raw src now).1.party = { a.party with
      role := if role = a.role ∧ a.tieBreaker < tie then a.role.other else a.role } := by
  obtain ⟨m, hm, htyp, rfl, hclaims, htie⟩ := h
  have hloses : a.losesConflict (m.sealed d (utf8 a.localCredentials.password)) =
      decide (role = a.role ∧ a.tieBreaker < tie) := by
    rw [losesConflict, hclaims, htie, Bool.decide_and]
    congr 1
    exact decide_eq_decide.mpr eq_comm
  rw [handleCheck_request d hm htyp rfl, party_processRequest,
    party_resolveRole, hloses]
  simp only [decide_eq_true_eq]

/-- A datagram with the header of a response. -/
def IsResponse (raw : Bytes) : Prop :=
  ∃ m : Message, m.typ = .new .binding .successResponse ∧ raw = m.encode

theorem typ_responseMessage (msg : Message) (src : SocketAddr) :
    (responseMessage msg src).typ = .new .binding .successResponse := by
  simp only [responseMessage]
  split <;> rfl

theorem response_processRequest {msg : Message} {src : SocketAddr} {outcome : CheckOutcome}
    (h : (a.processRequest d msg src).2 = .ok outcome) :
    outcome.response = some ((responseMessage msg src).encodeWithIntegrity d
      (utf8 a.localCredentials.password)) := by
  simp only [processRequest] at h
  split at h
  · cases h
  · cases h
    rfl

theorem response_processResponse (a : IceAgent) (msg : Message) (src : SocketAddr) (now : ℕ) :
    (a.processResponse msg src now).2.response = none := by
  simp only [processResponse]
  split <;> rfl

theorem isResponse_of_handleCheck {answer : Bytes} {src : SocketAddr} {now : ℕ}
    (h : answer ∈ responseOf (a.handleCheck d raw src now).2) : IsResponse answer := by
  unfold handleCheck at h
  split at h
  · cases h
  rename_i msg _
  split at h
  · cases h
  split at h
  · simp only [handleRequest] at h
    split at h
    · cases h
    · cases hresult : (a.processRequest d msg src).2 with
      | error e =>
          rw [hresult] at h
          cases h
      | ok outcome =>
          rw [hresult] at h
          have hanswer : outcome.response = some answer := by
            simpa [responseOf, Except.map] using h
          rw [response_processRequest d hresult] at hanswer
          cases hanswer
          exact ⟨(responseMessage msg src).sealed d _, typ_responseMessage msg src, rfl⟩
  · simp only [handleResponse] at h
    split at h
    · cases h
    · split at h
      · cases h
      · have hnone := response_processResponse a msg src now
        simp [responseOf, Except.map, hnone] at h
  · cases h

/-! ### The run -/

/-- What holds along a run, with `win` the side of the larger tie-breaker: it keeps its role, and
the other side changes its own at most once, to the role `win` does not have. `settled` says that
the roles differed at some time before. -/
structure Settling (win : Side) (start : Side → Party) (settled : Prop) (w : Negotiation) :
    Prop where
  party : ∀ s, (w.agent s).party = { start s with role := (w.agent s).role }
  winnerRole : (w.agent win).role = (start win).role
  winnerFlips : w.flips win = 0
  loser : (w.flips win.peer = 0 ∧ (settled ∨ w.heard win.peer = true →
      (w.agent win.peer).role ≠ (start win).role)) ∨
    (w.flips win.peer = 1 ∧ (w.agent win.peer).role ≠ (start win).role)
  requests : ∀ s, ∀ raw ∈ w.requests s, ∃ role, (s = win → role = (start win).role) ∧
    Claims d raw (utf8 (start s.peer).localCredentials.password) role (start s).tieBreaker
  responses : ∀ s, ∀ raw ∈ w.responses s, IsResponse raw

structure Honest (win : Side) (start : Side → Party) : Prop where
  credentials : ∀ s, (start s).remoteCredentials = some (start s.peer).localCredentials
  valid : ∀ s, (start s).localCredentials.Valid
  tieBreakers : (start win.peer).tieBreaker < (start win).tieBreaker

variable {d} {win : Side} {start : Side → Party} {settled : Prop} {w : Negotiation}

theorem Settling.setAgent (h : w.Settling d win start settled) {s : Side}
    (ha : a.party = (w.agent s).party) : (w.setAgent s a).Settling d win start settled := by
  have hparty : ∀ t, ((w.setAgent s a).agent t).party = (w.agent t).party := by
    intro t
    by_cases ht : t = s
    · subst ht
      rw [agent_setAgent_self, ha]
    · rw [agent_setAgent_of_ne ht]
  have hrole : ∀ t, ((w.setAgent s a).agent t).role = (w.agent t).role :=
    fun t => congrArg Party.role (hparty t)
  exact {
    party := fun t => by rw [hparty, hrole, h.party]
    winnerRole := by rw [hrole, h.winnerRole]
    winnerFlips := h.winnerFlips
    loser := by
      rw [hrole]
      exact h.loser
    requests := h.requests
    responses := h.responses }

theorem Settling.buildCheck (h : w.Settling d win start settled) (hon : Honest win start) (s : Side)
    (idx : ℕ) (nominate : Bool) (txid : TransactionId) (now : ℕ) :
    (w.step d (.buildCheck s idx nominate txid now)).Settling d win start settled := by
  have hset := h.setAgent (party_buildCheck d (w.agent s) idx nominate txid now)
  have hs := h.party s
  refine { hset with requests := ?_ }
  intro t raw hraw
  simp only [step] at hraw
  rcases mem_update_append.mp hraw with hold | ⟨rfl, hnew⟩
  · exact h.requests t raw hold
  · have hok : ((w.agent t).buildCheck d idx nominate txid now).2 = .ok raw := by
      revert hnew
      cases ((w.agent t).buildCheck d idx nominate txid now).2 with
      | error e => intro hnew; cases hnew
      | ok bytes =>
          intro hnew
          exact congrArg Except.ok (Option.mem_some_iff.mp (Option.mem_toList.mp hnew))
    have hcreds : (w.agent t).remoteCredentials = some (start t.peer).localCredentials := by
      rw [← hon.credentials t]
      exact congrArg Party.remoteCredentials hs
    have hlocal : (w.agent t).localCredentials = (start t).localCredentials :=
      congrArg Party.localCredentials hs
    have htie : (w.agent t).tieBreaker = (start t).tieBreaker := congrArg Party.tieBreaker hs
    refine ⟨(w.agent t).role, ?_, ?_⟩
    · rintro rfl
      exact h.winnerRole
    · rw [← htie]
      exact claims_of_buildCheck d hcreds (hon.valid t.peer) (by rw [hlocal]; exact hon.valid t) hok

theorem Settling.responses_receive (h : w.Settling d win start settled) (s : Side) (raw : Bytes)
    (src : SocketAddr) (now : ℕ) :
    ∀ t, ∀ answer ∈ (w.receive d s raw src now).responses t, IsResponse answer := by
  intro t answer hanswer
  rcases mem_update_append.mp hanswer with hold | ⟨rfl, hnew⟩
  · exact h.responses t answer hold
  · exact isResponse_of_handleCheck d hnew

theorem Settling.receive_keep (h : w.Settling d win start settled) {s : Side} {src : SocketAddr}
    {now : ℕ} (hkeep : ((w.agent s).handleCheck d raw src now).1.party = (w.agent s).party) :
    (w.receive d s raw src now).Settling d win start settled := by
  have hset := h.setAgent hkeep
  have hflips : (w.receive d s raw src now).flips = w.flips := by
    have hrole : ((w.agent s).handleCheck d raw src now).1.role = (w.agent s).role :=
      congrArg Party.role hkeep
    simp only [receive, hrole, if_true, Nat.add_zero, Function.update_eq_self]
  exact { hset with
    winnerFlips := by rw [hflips, h.winnerFlips]
    loser := by
      rw [hflips]
      exact hset.loser
    responses := h.responses_receive s raw src now }

theorem Settling.receive_winner (h : w.Settling d win start settled) (hon : Honest win start)
    (hraw : raw ∈ w.requests win.peer) (src : SocketAddr) (now : ℕ) :
    (w.receive d win raw src now).Settling d win start settled := by
  obtain ⟨role, -, hclaims⟩ := h.requests win.peer raw hraw
  have hpassword : (w.agent win).localCredentials = (start win).localCredentials :=
    congrArg Party.localCredentials (h.party win)
  have htie : (w.agent win).tieBreaker = (start win).tieBreaker :=
    congrArg Party.tieBreaker (h.party win)
  rw [Side.peer_peer, ← hpassword] at hclaims
  apply h.receive_keep
  rw [party_handleCheck_of_claims d hclaims, htie,
    if_neg fun hlost => UInt64.lt_asymm hlost.2 hon.tieBreakers]
  rfl

theorem Settling.receive_loser (h : w.Settling d win start settled) (hon : Honest win start)
    (hraw : raw ∈ w.requests win) (src : SocketAddr) (now : ℕ) :
    ({ w.receive d win.peer raw src now with
      heard := Function.update w.heard win.peer true } : Negotiation).Settling d win start settled := by
  obtain ⟨role, hrole, hclaims⟩ := h.requests win raw hraw
  rw [hrole rfl] at hclaims
  have hpassword : (w.agent win.peer).localCredentials = (start win.peer).localCredentials :=
    congrArg Party.localCredentials (h.party win.peer)
  have htie : (w.agent win.peer).tieBreaker = (start win.peer).tieBreaker :=
    congrArg Party.tieBreaker (h.party win.peer)
  rw [← hpassword] at hclaims
  have hparty := party_handleCheck_of_claims d hclaims src now
  by_cases hsame : (start win).role = (w.agent win.peer).role
  · -- The conflict is lost; that it was lost before is excluded by the roles.
    rw [if_pos ⟨hsame, by rw [htie]; exact hon.tieBreakers⟩] at hparty
    have hagent : (w.receive d win.peer raw src now).agent win.peer =
        ((w.agent win.peer).handleCheck d raw src now).1 := agent_setAgent_self ..
    have hwinner : (w.receive d win.peer raw src now).agent win = w.agent win :=
      agent_setAgent_of_ne win.peer_ne.symm ..
    have hrole' : ((w.receive d win.peer raw src now).agent win.peer).role =
        (w.agent win.peer).role.other := by
      rw [hagent]
      exact congrArg Party.role hparty
    have hzero : w.flips win.peer = 0 := by
      rcases h.loser with hzero | hone
      · exact hzero.1
      · exact absurd hsame.symm hone.2
    exact {
      party := by
        intro t
        rcases Side.eq_or_eq_peer t win with rfl | rfl
        · rw [hwinner, h.party]
        · rw [hrole', hagent, hparty, h.party]
      winnerRole := by rw [hwinner, h.winnerRole]
      winnerFlips := by
        simp only [receive, Function.update_of_ne win.peer_ne.symm, h.winnerFlips]
      loser := by
        refine .inr ⟨?_, ?_⟩
        · have hchanged : ((w.agent win.peer).handleCheck d raw src now).1.role ≠
              (w.agent win.peer).role := by
            rw [← hagent, hrole']
            exact IceRole.other_ne _
          simp only [receive, Function.update_self, hzero, if_neg hchanged]
        · rw [hrole', hsame]
          exact IceRole.other_ne _
      requests := h.requests
      responses := h.responses_receive win.peer raw src now }
  · rw [if_neg fun hlost => hsame hlost.1] at hparty
    have hkeep : (w.receive d win.peer raw src now).Settling d win start settled :=
      h.receive_keep hparty
    have hagent : (w.receive d win.peer raw src now).agent win.peer =
        ((w.agent win.peer).handleCheck d raw src now).1 := agent_setAgent_self ..
    have hdiffer : ((w.receive d win.peer raw src now).agent win.peer).role ≠ (start win).role := by
      rw [hagent]
      exact fun heq => hsame (heq.symm.trans (congrArg Party.role hparty))
    refine { hkeep with loser := ?_ }
    exact hkeep.loser.imp (fun hzero => ⟨hzero.1, fun _ => hdiffer⟩) id

theorem Settling.step (h : w.Settling d win start settled) (hon : Honest win start) (act : Act) :
    (w.step d act).Settling d win start settled := by
  cases act with
  | nextCheck s => exact h.setAgent (party_nextCheck _)
  | retransmit s idx => exact h.setAgent (party_retransmit _ idx)
  | failPair s idx => exact h.setAgent (party_failPair _ idx)
  | buildCheck s idx nominate txid now => exact h.buildCheck hon s idx nominate txid now
  | deliverRequest s n src now =>
      cases hraw : (w.requests s.peer)[n]? with
      | none =>
          simp only [Negotiation.step, hraw]
          exact h
      | some raw =>
          simp only [Negotiation.step, hraw]
          have hmem := List.mem_of_getElem? hraw
          rcases Side.eq_or_eq_peer s win with rfl | rfl
          · have hkept := h.receive_winner hon hmem src now
            refine { hkept with loser := ?_ }
            have hheard : Function.update w.heard s true s.peer = w.heard s.peer :=
              Function.update_of_ne s.peer_ne ..
            simp only [hheard]
            exact hkept.loser
          · rw [Side.peer_peer] at hmem
            exact h.receive_loser hon hmem src now
  | deliverResponse s n src now =>
      cases hraw : (w.responses s.peer)[n]? with
      | none =>
          simp only [Negotiation.step, hraw]
          exact h
      | some raw =>
          simp only [Negotiation.step, hraw]
          obtain ⟨m, htyp, rfl⟩ := h.responses s.peer raw (List.mem_of_getElem? hraw)
          exact h.receive_keep (party_handleCheck_of_response d htyp _ src now)

def winner (w : Negotiation) : Side :=
  if (w.agent .right).tieBreaker < (w.agent .left).tieBreaker then .left else .right

theorem Start.honest (h : w.Start) : Honest w.winner fun s => (w.agent s).party where
  credentials := h.credentials
  valid := h.valid
  tieBreakers := by
    unfold winner
    split
    · assumption
    · rename_i hnot
      exact lt_of_le_of_ne (not_lt.mp hnot) h.tieBreakers

theorem Start.settling (h : w.Start) :
    w.Settling d w.winner (fun s => (w.agent s).party) False where
  party _ := rfl
  winnerRole := rfl
  winnerFlips := h.flips _
  loser := .inl ⟨h.flips _, fun hheard => by
    rw [h.heard] at hheard
    rcases hheard with hfalse | hfalse <;> cases hfalse⟩
  requests s raw hraw := by
    rw [h.requests] at hraw
    cases hraw
  responses s raw hraw := by
    rw [h.responses] at hraw
    cases hraw

theorem opposite_iff (w : Negotiation) (s : Side) :
    w.Opposite ↔ (w.agent s.peer).role ≠ (w.agent s).role := by
  cases s
  · exact ne_comm
  · exact Iff.rfl

/-- Whatever is built, lost, repeated, delayed or reordered: at most one agent changes its role
and at most once, roles that differ differ for ever, and they differ once each agent has processed
a request of the other. -/
theorem roles_settle (d : Digests) {w : Negotiation} (hw : w.Start) (as : List Act) :
    let t := as.foldl (Negotiation.step d) w
    t.flips .left + t.flips .right ≤ 1 ∧
      (t.Opposite → ∀ bs : List Act, (bs.foldl (Negotiation.step d) t).Opposite) ∧
      (t.heard .left = true → t.heard .right = true → t.Opposite) := by
  intro t
  have ht : t.Settling d w.winner (fun s => (w.agent s).party) False :=
    foldl_invariant _ (fun u act hu => hu.step hw.honest act) hw.settling as
  refine ⟨?_, ?_, ?_⟩
  · have hsum : t.flips .left + t.flips .right = t.flips w.winner + t.flips w.winner.peer := by
      cases w.winner
      · rfl
      · exact Nat.add_comm _ _
    rw [hsum, ht.winnerFlips]
    rcases ht.loser with hzero | hone
    · omega
    · omega
  · intro hopp bs
    rw [opposite_iff t w.winner, ht.winnerRole] at hopp
    have hsettled : t.Settling d w.winner (fun s => (w.agent s).party) True :=
      { ht with loser := ht.loser.imp_left fun hzero => ⟨hzero.1, fun _ => hopp⟩ }
    have hu : (bs.foldl (Negotiation.step d) t).Settling d w.winner
        (fun s => (w.agent s).party) True :=
      foldl_invariant _ (fun u act hu => hu.step hw.honest act) hsettled bs
    rw [opposite_iff _ w.winner, hu.winnerRole]
    exact hu.loser.elim (fun hzero => hzero.2 (.inl trivial)) And.right
  · intro hleft hright
    rw [opposite_iff t w.winner, ht.winnerRole]
    have hheard : t.heard w.winner.peer = true := by
      cases w.winner <;> assumption
    exact ht.loser.elim (fun hzero => hzero.2 (.inr hheard)) And.right

/-- Two agents that both start as controlling. -/
def bothControlling : Negotiation where
  agent
    | .left => hostAgent .left .controlling 7 [1] [2]
    | .right => hostAgent .right .controlling 3 [2] [1]
  requests _ := []
  responses _ := []
  flips _ := 0
  heard _ := false

theorem start_bothControlling : bothControlling.Start where
  credentials s := by cases s <;> rfl
  valid s := by cases s <;> exact valid_credentials _
  tieBreakers := by
    change (7 : UInt64) ≠ 3
    decide
  requests _ := rfl
  responses _ := rfl
  flips _ := rfl
  heard _ := rfl

theorem bothControlling_settle :
    let t := ([.buildCheck .left 0 true (Block.zeroPadded 12 [1]) 0,
      .buildCheck .right 0 true (Block.zeroPadded 12 [2]) 0,
      .deliverRequest .right 0 (hostAddr 1) 1, .deliverRequest .left 0 (hostAddr 2) 1] :
        List Act).foldl (Negotiation.step .front) bothControlling
    t.flips .left + t.flips .right ≤ 1 ∧
      (t.Opposite → ∀ bs : List Act, (bs.foldl (Negotiation.step .front) t).Opposite) ∧
      (t.heard .left = true → t.heard .right = true → t.Opposite) :=
  roles_settle .front start_bothControlling _

end Negotiation

end Vantablack.Ice
