import Vantablack.Ice.CheckList

/-!
What an agent reports between its operations: it is connected exactly if it has a selected pair, its
indices are those of pairs, and the round trip of a response is that of the check it answers.
-/

namespace Vantablack.Ice

open Lib Layers Receive Net Stun

namespace IceAgent

def withCheckAttempts (a : IceAgent) (attempts : ℕ) : IceAgent :=
  { a with retransmitAttempts := max attempts 1 }

def setLocalCredentials (a : IceAgent) (credentials : IceCredentials) : IceAgent :=
  { a with localCredentials := credentials }

def setRemoteRole (a : IceAgent) (role : IceRole) : IceAgent :=
  { a with role := role.other }

def addServerReflexiveCandidate (a : IceAgent) (base mapped : SocketAddr)
    (stunServer : Option SocketAddr) : IceAgent :=
  { a with localCandidates := a.localCandidates ++
      [Candidate.new .serverReflexive base mapped defaultComponent stunServer] }

def addRelayCandidate (a : IceAgent) (base relayAddr : SocketAddr) : IceAgent :=
  { a with localCandidates := a.localCandidates ++
      [Candidate.new .relay base relayAddr defaultComponent none] }

/-- An operation, with the transaction ID that is drawn and the instant of it. -/
inductive AgentAct where
  | withCheckAttempts (attempts : ℕ)
  | setLocalCredentials (credentials : IceCredentials)
  | setRemoteCredentials (credentials : IceCredentials)
  | setRemoteRole (role : IceRole)
  | addHost (base advertised : SocketAddr)
  | addServerReflexive (base mapped : SocketAddr) (stunServer : Option SocketAddr)
  | addRelay (base relayAddr : SocketAddr)
  | addRemote (c : Candidate)
  | formPairs
  | nextCheck
  | buildCheck (idx : ℕ) (nominate : Bool) (txid : TransactionId) (now : ℕ)
  | retransmit (idx : ℕ)
  | failPair (idx : ℕ)
  | nominate (idx : ℕ)
  | handleCheck (raw : Bytes) (src : SocketAddr) (now : ℕ)

variable (d : Digests)

def agentStep (a : IceAgent) : AgentAct → IceAgent
  | .withCheckAttempts attempts => a.withCheckAttempts attempts
  | .setLocalCredentials credentials => a.setLocalCredentials credentials
  | .setRemoteCredentials credentials => a.setRemoteCredentials credentials
  | .setRemoteRole role => a.setRemoteRole role
  | .addHost base advertised => a.addHostCandidate base advertised
  | .addServerReflexive base mapped stunServer =>
      a.addServerReflexiveCandidate base mapped stunServer
  | .addRelay base relayAddr => a.addRelayCandidate base relayAddr
  | .addRemote c => a.addRemoteCandidate c
  | .formPairs => a.formPairs
  | .nextCheck => a.nextCheck.1
  | .buildCheck idx nominate txid now => (a.buildCheck d idx nominate txid now).1
  | .retransmit idx => (a.retransmit idx).1
  | .failPair idx => a.failPair idx
  | .nominate idx => a.nominate idx
  | .handleCheck raw src now => (a.handleCheck d raw src now).1

/-- What the state of an agent has to be. -/
structure Corresponds (a : IceAgent) : Prop where
  connected : a.state = .connected ↔ a.selectedPair.isSome
  nominated : ∀ i, a.nominated = some i → i < a.pairs.length
  sent : ∀ txid s, a.checksSent.lookup txid = some s → s.1 < a.pairs.length
  tracked : a.checksSent.size ≤ maxTrackedChecks

/-- A datagram is read as a success response. -/
def ReadsResponse (raw : Bytes) (msg : Message) : Prop :=
  parse raw = .ok msg ∧ msg.typ.method = .binding ∧ msg.typ.cls = .successResponse

/-- What the outcome of an operation has to be: a response completes a check exactly if its
transaction is one that is tracked for the pair. -/
def Completes (a : IceAgent) : AgentAct → Prop
  | .handleCheck raw src now =>
      ∀ msg outcome, ReadsResponse raw msg →
        (a.handleCheck d raw src now).2 = .ok (some outcome) →
        (outcome.completedOurCheck.isSome ↔
          ∃ s, a.checksSent.lookup msg.txid = some s ∧ outcome.pair = some s.1)
  | _ => True

/-- The nominated pair is not given up, and a response that verifies but answers no check that is
tracked comes from no peer, or from one whose pair has no round trip yet. -/
def Careful (a : IceAgent) : AgentAct → Prop
  | .failPair idx => a.nominated ≠ some idx
  | .handleCheck raw src _ =>
      ∀ msg remote, ReadsResponse raw msg → a.remoteCredentials = some remote →
        verifyIntegrity d raw (utf8 remote.password) = .ok () →
        a.checksSent.lookup msg.txid = none →
        ∀ p, a.pairs.find? (fun p => p.remote.addr = src) = some p → p.rtt = none
  | _ => True

/-! ### The invariant -/

/-- The nominated pair has succeeded, and the checks that are tracked are those of pairs. -/
structure Valid (a : IceAgent) : Prop where
  nominated : ∀ i, a.nominated = some i → a.stateAt i = some .succeeded
  sent : ∀ txid s, a.checksSent.lookup txid = some s →
    s.1 < a.pairs.length ∧ txid ∈ a.checkOrder
  order : a.checkOrder.length ≤ maxTrackedChecks

variable {d} {a b : IceAgent}

theorem stateAt_eq_some {i : ℕ} {st : PairState} :
    a.stateAt i = some st ↔ ∃ p, a.pairs[i]? = some p ∧ p.state = st := by
  rw [stateAt, Option.map_eq_some_iff]

theorem lt_of_stateAt {i : ℕ} {st : PairState} (h : a.stateAt i = some st) :
    i < a.pairs.length := by
  obtain ⟨p, hp, -⟩ := stateAt_eq_some.mp h
  exact (List.getElem?_eq_some_iff.mp hp).1

theorem state_eq_connected : a.state = .connected ↔ a.nominated.isSome := by
  unfold state
  constructor
  · intro h
    by_contra hnone
    rw [if_neg hnone] at h
    split at h
    · cases h
    · split at h
      · cases h
      · split at h <;> cases h
  · intro h
    rw [if_pos h]

theorem selectedPair_isSome :
    a.selectedPair.isSome ↔ ∃ i, a.nominated = some i ∧ a.stateAt i = some .succeeded := by
  unfold selectedPair
  cases hnominated : a.nominated with
  | none => simp
  | some i =>
      cases hpair : a.pairs[i]? with
      | none => simp [stateAt, hpair]
      | some p =>
          by_cases hp : p.state = .succeeded
          · simp [stateAt, hpair, hp]
          · simp [stateAt, hpair, hp]

theorem Valid.corresponds (h : a.Valid) : a.Corresponds where
  connected := by
    rw [state_eq_connected, selectedPair_isSome]
    constructor
    · intro hsome
      obtain ⟨i, hi⟩ := Option.isSome_iff_exists.mp hsome
      exact ⟨i, hi, h.nominated i hi⟩
    · rintro ⟨i, hi, -⟩
      rw [hi]
      rfl
  nominated i hi := lt_of_stateAt (h.nominated i hi)
  sent txid s hs := (h.sent txid s hs).1
  tracked := by
    have hkeys : a.checksSent.keys ⊆ a.checkOrder := by
      intro txid htxid
      obtain ⟨s, hs⟩ := Option.isSome_iff_exists.mp (AList.lookup_isSome.mpr htxid)
      exact (h.sent txid s hs).2
    have hle : a.checksSent.keys.length ≤ a.checkOrder.length :=
      (a.checksSent.keys_nodup.subperm hkeys).length_le
    rw [AList.keys, List.keys, List.length_map] at hle
    exact hle.trans h.order

theorem Valid.of_kept (h : a.Valid) (hlen : a.pairs.length ≤ b.pairs.length)
    (hstate : ∀ i, a.stateAt i = some .succeeded → b.stateAt i = some .succeeded)
    (hnominated : b.nominated = a.nominated)
    (hsent : ∀ txid s, b.checksSent.lookup txid = some s → a.checksSent.lookup txid = some s)
    (horder : b.checkOrder = a.checkOrder) : b.Valid where
  nominated i hi := hstate i (h.nominated i (hnominated ▸ hi))
  sent txid s hs := by
    obtain ⟨hlt, hmem⟩ := h.sent txid s (hsent txid s hs)
    exact ⟨hlt.trans_le hlen, horder ▸ hmem⟩
  order := horder ▸ h.order

theorem Valid.modify (h : a.Valid) (idx : ℕ) (f : CandidatePair → CandidatePair)
    (hf : ∀ p, a.pairs[idx]? = some p → p.state = .succeeded → (f p).state = .succeeded) :
    ({ a with pairs := a.pairs.modify idx f } : IceAgent).Valid := by
  refine h.of_kept (by rw [List.length_modify]) (fun i hi => ?_) rfl (fun _ _ hs => hs) rfl
  obtain ⟨p, hp, hstate⟩ := stateAt_eq_some.mp hi
  rw [stateAt_eq_some]
  by_cases hidx : idx = i
  · subst hidx
    exact ⟨f p, by simp [hp], hf p hp hstate⟩
  · exact ⟨p, by simp [hidx, hp], hstate⟩

theorem Valid.of_table (h : a.Valid) {table : Table TransactionId (ℕ × SocketAddr × ℕ)}
    {order : List TransactionId}
    (hsent : ∀ txid s, table.lookup txid = some s → s.1 < a.pairs.length ∧ txid ∈ order)
    (horder : order.length ≤ maxTrackedChecks) :
    ({ a with checksSent := table, checkOrder := order } : IceAgent).Valid :=
  ⟨h.nominated, hsent, horder⟩

/-! ### The operations keep it -/

theorem valid_formPairs (a : IceAgent) : a.formPairs.Valid where
  nominated i hi := by cases hi
  sent txid s hs := by cases hs
  order := Nat.zero_le _

theorem Valid.nextCheck (h : a.Valid) : a.nextCheck.1.Valid := by
  rcases a.nextCheck_cases with ⟨hsame, -⟩ | ⟨idx, hwaiting, hnext⟩
  · rw [hsame]
    exact h
  · rw [hnext]
    refine h.modify idx _ fun p hp hstate => ?_
    rw [stateAt, hp, Option.map_some, hstate] at hwaiting
    cases hwaiting

theorem Valid.retransmit (h : a.Valid) (idx : ℕ) : (a.retransmit idx).1.Valid := by
  unfold IceAgent.retransmit
  split
  · exact h.modify idx _ fun _ _ hstate => hstate
  · exact h

theorem Valid.failPair (h : a.Valid) {idx : ℕ} (hidx : a.nominated ≠ some idx) :
    (a.failPair idx).Valid where
  nominated i hi := by
    have hne : i ≠ idx := by
      rintro rfl
      exact hidx hi
    rw [IceAgent.failPair, stateAt_modify _ _ _ .failed fun _ => rfl, if_neg hne]
    exact h.nominated i hi
  sent txid s hs := by
    obtain ⟨hlt, hmem⟩ := h.sent txid s hs
    exact ⟨by simpa [IceAgent.failPair] using hlt, hmem⟩
  order := h.order

theorem Valid.nominate (h : a.Valid) (idx : ℕ) : (a.nominate idx).Valid := by
  unfold IceAgent.nominate
  split
  · rename_i p hp
    split
    · rename_i hstate
      obtain ⟨-, hsent, horder⟩ := h.modify idx (fun p => { p with nominated := true })
        fun _ _ hstate => hstate
      refine ⟨fun i hi => ?_, hsent, horder⟩
      cases hi
      rw [stateAt_eq_some]
      exact ⟨{ p with nominated := true }, by simp [hp], hstate⟩
    · exact h
  · exact h

theorem Valid.trackCheck (h : a.Valid) {idx : ℕ} (hidx : idx < a.pairs.length)
    (txid : TransactionId) (base : SocketAddr) (now : ℕ) :
    (a.trackCheck txid idx base now).Valid := by
  have herase (old : List TransactionId) (t : Table TransactionId (ℕ × SocketAddr × ℕ))
      (k : TransactionId) (s : ℕ × SocketAddr × ℕ)
      (hs : (old.foldl (fun t old => t.erase old) t).lookup k = some s) :
      t.lookup k = some s ∧ k ∉ old := by
    induction old generalizing t with
    | nil => exact ⟨hs, by simp⟩
    | cons o old ih =>
        obtain ⟨hlookup, hnot⟩ := ih (t.erase o) hs
        obtain ⟨hne, hlookup⟩ := Table.lookup_erase_eq_some.mp hlookup
        exact ⟨hlookup, by simp [hnot, hne]⟩
  rw [IceAgent.trackCheck]
  refine h.of_table (fun k s hs => ?_) ?_
  · obtain ⟨hlookup, hnot⟩ := herase _ _ k s hs
    have hmem : k ∈ a.checkOrder ++ [txid] ∧ s.1 < a.pairs.length := by
      rcases Table.lookup_insert_eq_some.mp hlookup with ⟨rfl, rfl⟩ | ⟨-, hold⟩
      · exact ⟨List.mem_append_right _ (List.mem_singleton.mpr rfl), hidx⟩
      · obtain ⟨hlt, hin⟩ := h.sent k s hold
        exact ⟨List.mem_append_left _ hin, hlt⟩
    refine ⟨hmem.2, ?_⟩
    have hall := hmem.1
    rw [← List.take_append_drop ((a.checkOrder ++ [txid]).length - maxTrackedChecks)
      (a.checkOrder ++ [txid]), List.mem_append] at hall
    exact hall.resolve_left hnot
  · rw [List.length_drop]
    omega

theorem Valid.buildCheck (h : a.Valid) (idx : ℕ) (nominate : Bool) (txid : TransactionId)
    (now : ℕ) : (a.buildCheck d idx nominate txid now).1.Valid := by
  unfold IceAgent.buildCheck
  split
  · exact h
  · rename_i pair hpair
    split
    · exact h
    · exact h.trackCheck (List.getElem?_eq_some_iff.mp hpair).1 txid pair.local_.base now

theorem Valid.succeed (h : a.Valid) (idx : ℕ) : (a.succeed idx).Valid :=
  h.modify idx _ fun _ _ _ => rfl

theorem Valid.recordRtt (h : a.Valid) (measured : Option (ℕ × ℕ)) :
    (a.recordRtt measured).Valid := by
  cases measured with
  | none => exact h
  | some m => exact h.modify m.1 _ fun _ _ hstate => hstate

theorem Valid.nominateProved (h : a.Valid) (idx : ℕ) : (a.nominateProved idx).Valid := by
  unfold IceAgent.nominateProved
  split
  · exact h.nominate idx
  · exact h

theorem Valid.matchRequest (h : a.Valid) (src : SocketAddr) : (a.matchRequest src).1.Valid := by
  simp only [IceAgent.matchRequest]
  split
  · exact h
  · split
    · exact ⟨h.nominated, h.sent, h.order⟩
    · refine h.of_kept (by simp) (fun i hi => ?_) rfl (fun _ _ hs => hs) rfl
      obtain ⟨p, hp, hstate⟩ := stateAt_eq_some.mp hi
      refine stateAt_eq_some.mpr ⟨p, ?_, hstate⟩
      rw [← hp]
      exact List.getElem?_append_left (List.getElem?_eq_some_iff.mp hp).1

theorem Valid.resolveRole (h : a.Valid) (msg : Message) : (a.resolveRole msg).Valid := by
  unfold IceAgent.resolveRole
  split
  · exact valid_formPairs _
  · exact h

theorem Valid.processRequest (h : a.Valid) (msg : Message) (src : SocketAddr) :
    (a.processRequest d msg src).1.Valid := by
  have hmatch := (h.resolveRole msg).matchRequest src
  simp only [IceAgent.processRequest]
  split
  · rename_i heq
    rw [heq] at hmatch
    exact hmatch
  · rename_i heq
    rw [heq] at hmatch
    split
    · exact (hmatch.succeed _).nominate _
    · exact hmatch.succeed _

theorem Valid.processResponse (h : a.Valid) (msg : Message) (src : SocketAddr) (now : ℕ) :
    (a.processResponse msg src now).1.Valid := by
  have herased : ({ a with checksSent := a.checksSent.erase msg.txid } : IceAgent).Valid :=
    h.of_kept le_rfl (fun _ hi => hi) rfl
      (fun _ _ hs => (Table.lookup_erase_eq_some.mp hs).2) rfl
  simp only [IceAgent.processResponse]
  split
  · exact herased
  · exact ((herased.succeed _).recordRtt _).nominateProved _

theorem Valid.handleCheck (h : a.Valid) (raw : Bytes) (src : SocketAddr) (now : ℕ) :
    (a.handleCheck d raw src now).1.Valid := by
  simp only [IceAgent.handleCheck]
  split
  · exact h
  · split
    · exact h
    · split
      · simp only [handleRequest]
        split
        · exact h
        · exact h.processRequest _ src
      · simp only [handleResponse]
        split
        · exact h
        · split
          · exact h
          · exact h.processResponse _ src now
      · exact h

theorem Valid.agentStep (h : a.Valid) (act : AgentAct) (hact : a.Careful d act) :
    (a.agentStep d act).Valid := by
  cases act with
  | formPairs => exact valid_formPairs a
  | nextCheck => exact h.nextCheck
  | buildCheck idx nominate txid now => exact h.buildCheck idx nominate txid now
  | retransmit idx => exact h.retransmit idx
  | failPair idx => exact h.failPair hact
  | nominate idx => exact h.nominate idx
  | handleCheck raw src now => exact h.handleCheck raw src now
  | _ => exact ⟨h.nominated, h.sent, h.order⟩

/-! ### The outcome of a response -/

theorem rtt_modify (a : IceAgent) (idx : ℕ) (f : CandidatePair → CandidatePair)
    (hf : ∀ p, (f p).rtt = p.rtt) (i : ℕ) :
    (a.pairs.modify idx f)[i]?.bind (·.rtt) = a.pairs[i]?.bind (·.rtt) := by
  rw [List.getElem?_modify]
  by_cases hidx : idx = i
  · subst hidx
    cases a.pairs[idx]? with
    | none => rfl
    | some p => simp [hf]
  · simp [hidx]

theorem rtt_nominateProved (a : IceAgent) (idx i : ℕ) :
    (a.nominateProved idx).pairs[i]?.bind (·.rtt) = a.pairs[i]?.bind (·.rtt) := by
  unfold IceAgent.nominateProved
  split
  · unfold IceAgent.nominate
    split
    · split
      · exact a.rtt_modify idx (fun p => { p with nominated := true }) (fun _ => rfl) i
      · rfl
    · rfl
  · rfl

theorem find?_eq_findIdx? (pairs : List CandidatePair) (q : CandidatePair → Bool) :
    pairs.find? q = (pairs.findIdx? q).bind fun i => pairs[i]? := by
  induction pairs with
  | nil => rfl
  | cons p pairs ih =>
      rw [List.find?_cons, List.findIdx?_cons]
      cases hq : q p with
      | true => rfl
      | false =>
          simp only [Bool.false_eq_true, if_false, ih]
          cases pairs.findIdx? q <;> rfl

theorem Valid.outcome_tracked (h : a.Valid) {msg : Message} {s : ℕ × SocketAddr × ℕ}
    (hs : a.checksSent.lookup msg.txid = some s) (src : SocketAddr) (now : ℕ) :
    (a.processResponse msg src now).2.pair = some s.1 ∧
      (a.processResponse msg src now).2.completedOurCheck.isSome := by
  have hlt := (h.sent msg.txid s hs).1
  obtain ⟨p, hp⟩ : ∃ p, a.pairs[s.1]? = some p := ⟨_, List.getElem?_eq_getElem hlt⟩
  simp only [IceAgent.processResponse, IceAgent.matchResponse, hs, Option.map_some, if_pos hlt]
  refine ⟨trivial, ?_⟩
  rw [rtt_nominateProved]
  simp [IceAgent.recordRtt, IceAgent.succeed, hp]

theorem outcome_untracked (a : IceAgent) {msg : Message}
    (hs : a.checksSent.lookup msg.txid = none) (src : SocketAddr) (now : ℕ) :
    (a.processResponse msg src now).2.completedOurCheck =
      (a.pairs.find? fun p => p.remote.addr = src).bind (·.rtt) := by
  rw [find?_eq_findIdx?]
  simp only [IceAgent.processResponse, IceAgent.matchResponse, hs, Option.map_none]
  cases a.pairs.findIdx? fun p => p.remote.addr = src with
  | none => rfl
  | some i =>
      simp only [rtt_nominateProved, IceAgent.recordRtt, IceAgent.succeed, Option.bind_some]
      exact a.rtt_modify i (fun p => { p with state := .succeeded }) (fun _ => rfl) i

theorem handleCheck_readsResponse {raw : Bytes} {msg : Message} (hread : ReadsResponse raw msg)
    (src : SocketAddr) (now : ℕ) (outcome : CheckOutcome) :
    (a.handleCheck d raw src now).2 = .ok (some outcome) ↔
      ∃ remote, a.remoteCredentials = some remote ∧
        verifyIntegrity d raw (utf8 remote.password) = .ok () ∧
        outcome = (a.processResponse msg src now).2 := by
  obtain ⟨hparse, hmethod, hcls⟩ := hread
  simp only [IceAgent.handleCheck, hparse, hmethod, hcls, ne_eq, not_true_eq_false, if_false,
    IceAgent.handleResponse]
  cases a.remoteCredentials with
  | none => simp [Except.map]
  | some remote =>
      simp only []
      cases hverify : verifyIntegrity d raw (utf8 remote.password) with
      | error e => simp [Except.map, hverify]
      | ok u => simp [Except.map, hverify, eq_comm]

theorem Valid.careful_iff (h : a.Valid) (act : AgentAct) :
    a.Careful d act ↔ (a.agentStep d act).Corresponds ∧ a.Completes d act := by
  constructor
  · intro hact
    refine ⟨(h.agentStep act hact).corresponds, ?_⟩
    cases act with
    | handleCheck raw src now =>
        intro msg outcome hread hok
        obtain ⟨remote, hremote, hverify, rfl⟩ :=
          (handleCheck_readsResponse hread src now outcome).mp hok
        cases hs : a.checksSent.lookup msg.txid with
        | some s =>
            obtain ⟨hpair, hsome⟩ := h.outcome_tracked hs src now
            exact ⟨fun _ => ⟨s, rfl, hpair⟩, fun _ => hsome⟩
        | none =>
            have hnone : (a.processResponse msg src now).2.completedOurCheck = none := by
              rw [a.outcome_untracked hs, Option.bind_eq_none_iff]
              exact hact msg remote hread hremote hverify hs
            rw [hnone]
            simp
    | _ => trivial
  · rintro ⟨hstep, houtcome⟩
    cases act with
    | failPair idx =>
        intro hidx
        have hconnected : (a.failPair idx).state = .connected := by
          rw [state_eq_connected]
          exact Option.isSome_iff_exists.mpr ⟨idx, hidx⟩
        obtain ⟨i, hi, hstate⟩ := selectedPair_isSome.mp (hstep.connected.mp hconnected)
        obtain rfl : idx = i := Option.some.inj (hidx.symm.trans hi)
        change (a.failPair idx).stateAt idx = _ at hstate
        rw [stateAt_failPair, h.nominated idx hidx] at hstate
        cases hstate
    | handleCheck raw src now =>
        intro msg remote hread hremote hverify hs p hp
        have hok := (handleCheck_readsResponse hread src now _).mpr ⟨remote, hremote, hverify, rfl⟩
        have hiff := houtcome msg _ hread hok
        rw [a.outcome_untracked hs, hp, Option.bind_some, hs] at hiff
        simpa using hiff
    | _ => trivial

theorem valid_new (role : IceRole) (tieBreaker : UInt64) (credentials : IceCredentials) :
    (IceAgent.new role tieBreaker credentials).Valid where
  nominated i hi := by cases hi
  sent txid s hs := by cases hs
  order := Nat.zero_le _

/-- A run of a new agent is as it has to be, in every state and in the outcome of every check,
exactly if every step of it is careful. -/
theorem corresponds_iff (d : Digests) (role : IceRole) (tieBreaker : UInt64)
    (credentials : IceCredentials) (acts : List AgentAct) :
    ((IceAgent.new role tieBreaker credentials).Corresponds ∧
        Always (agentStep d) (fun a act => (a.agentStep d act).Corresponds ∧ a.Completes d act)
          (IceAgent.new role tieBreaker credentials) acts) ↔
      Always (agentStep d) (Careful d) (IceAgent.new role tieBreaker credentials) acts := by
  have hstart := valid_new role tieBreaker credentials
  rw [and_iff_right hstart.corresponds]
  exact (Always.congr_of_kept Valid (fun _ act ha hact => ha.agentStep act hact)
    (fun _ act ha => ha.careful_iff act) hstart acts).symm

/-! ### Two runs that are not as they have to be -/

/-- A controlled agent with a host candidate, in the order of its operations up to a check of a peer
that nominates the pair. -/
def nominatedRun : List AgentAct :=
  [.setRemoteCredentials { ufrag := "peer", password := "peer" },
    .addHost (hostOn 1).base (hostOn 1).addr,
    .handleCheck (((bindingRequest (Block.zeroPadded 12 [1])).push .useCandidate).encodeWithIntegrity
      .front (utf8 "own")) (hostOn 2).addr 0]

/-- The response of the peer to a transaction. -/
def peerResponse (id : UInt8) : Bytes :=
  (bindingSuccess (Block.zeroPadded 12 [id]) (hostOn 1).addr).encodeWithIntegrity .front
    (utf8 "peer")

def controlledAgent : IceAgent :=
  IceAgent.new .controlled 0 { ufrag := "own", password := "own" }

/-- A check of the pair is sent and answered. -/
def measuredRun : List AgentAct :=
  nominatedRun ++ [.buildCheck 0 false (Block.zeroPadded 12 [2]) 10,
    .handleCheck (peerResponse 2) (hostOn 2).addr 15]

/-- The nominated pair is given up: the agent is connected and has no pair. And a response to a
check that was never sent is given the round trip of the check before it. -/
theorem not_corresponds :
    ¬ ((nominatedRun ++ [AgentAct.failPair 0]).foldl (agentStep .front) controlledAgent).Corresponds ∧
      ¬ (measuredRun.foldl (agentStep .front) controlledAgent).Completes .front
        (.handleCheck (peerResponse 3) (hostOn 2).addr 99) := by
  constructor
  · intro h
    have hstate : ((nominatedRun ++ [AgentAct.failPair 0]).foldl (agentStep .front)
        controlledAgent).state = .connected := by decide +kernel
    have hpair : ((nominatedRun ++ [AgentAct.failPair 0]).foldl (agentStep .front)
        controlledAgent).selectedPair = none := by decide +kernel
    rw [h.connected, hpair] at hstate
    cases hstate
  · intro h
    have hread : (parse (peerResponse 3)).toOption.any (fun msg =>
        decide (msg.typ.method = .binding ∧ msg.typ.cls = .successResponse ∧
          (measuredRun.foldl (agentStep .front) controlledAgent).checksSent.lookup msg.txid =
            none)) = true := by decide +kernel
    have houtcome : ((measuredRun.foldl (agentStep .front) controlledAgent).handleCheck
        .front (peerResponse 3) (hostOn 2).addr 99).2.toOption.join.any (fun outcome =>
          decide (outcome.completedOurCheck = some 5)) = true := by decide +kernel
    cases hparse : parse (peerResponse 3) with
    | error e =>
        rw [hparse] at hread
        cases hread
    | ok msg =>
        rw [hparse] at hread
        obtain ⟨hmethod, hcls, huntracked⟩ := of_decide_eq_true hread
        rcases hok : ((measuredRun.foldl (agentStep .front) controlledAgent).handleCheck
          .front (peerResponse 3) (hostOn 2).addr 99).2 with e | _ | outcome
        · rw [hok] at houtcome
          cases houtcome
        · rw [hok] at houtcome
          cases houtcome
        · rw [hok] at houtcome
          have hiff := h msg outcome ⟨hparse, hmethod, hcls⟩ hok
          rw [of_decide_eq_true houtcome, huntracked] at hiff
          simp at hiff

end IceAgent

end Vantablack.Ice
