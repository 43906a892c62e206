import Vantablack.Ice.Roles

/-!
Nomination between a controlling and a controlled agent. A check for a pair goes from the address
of its local candidate to that of its remote one, and its answer the other way; everything sent
stays in transit.
-/

namespace Vantablack.Ice

open Lib Layers Receive Net Stun List IceAgent

/-- From where to where. -/
abbrev Path := SocketAddr × SocketAddr

def CandidatePair.path (p : CandidatePair) : Path := (p.local_.addr, p.remote.addr)

namespace IceAgent

/-- The pairs by their addresses alone. -/
def paths (a : IceAgent) : List Path := a.pairs.map CandidatePair.path

/-- The path of the first pair whose remote address is `addr`. -/
def pathTo (a : IceAgent) (addr : SocketAddr) : Option Path := a.paths.find? (·.2 = addr)

/-- The local address of the pair that a request from `src` is matched to. -/
def localFor (a : IceAgent) (src : SocketAddr) : Option SocketAddr :=
  match a.pathTo src with
  | some path => some path.1
  | none => a.localCandidates.head?.map (·.addr)

/-- If the agent has nominated a pair, it is one of this path. -/
def NominatedOn (a : IceAgent) (path : Path) : Prop :=
  ∀ idx, a.nominated = some idx → a.paths[idx]? = some path

/-! ### What the operations do to paths, nomination and tracked checks -/

theorem map_path_modify {pairs : List CandidatePair} {f : CandidatePair → CandidatePair}
    (h : ∀ p, (f p).path = p.path) (i : ℕ) :
    (pairs.modify i f).map CandidatePair.path = pairs.map CandidatePair.path := by
  apply ext_getElem?
  intro j
  rw [getElem?_map, getElem?_map, getElem?_modify]
  cases pairs[j]? with
  | none => rfl
  | some p =>
      by_cases hij : i = j
      · simp [hij, h]
      · simp [hij]

variable (a : IceAgent) (idx : ℕ)

@[simp] theorem paths_succeed : (a.succeed idx).paths = a.paths := by
  apply map_path_modify
  exact fun _ => rfl

variable (measured : Option (ℕ × ℕ))

@[simp] theorem paths_recordRtt : (a.recordRtt measured).paths = a.paths := by
  cases measured with
  | none => rfl
  | some m =>
      apply map_path_modify
      exact fun _ => rfl

@[simp] theorem paths_nominate : (a.nominate idx).paths = a.paths := by
  unfold nominate
  split
  · split
    · apply map_path_modify
      exact fun _ => rfl
    · rfl
  · rfl

@[simp] theorem paths_retransmit : (a.retransmit idx).1.paths = a.paths := by
  unfold retransmit
  split
  · apply map_path_modify
    exact fun _ => rfl
  · rfl

theorem map_path_unfreeze (pairs : List CandidatePair) (key : String × UInt16) :
    (unfreeze pairs key).map CandidatePair.path = pairs.map CandidatePair.path := by
  simp only [unfreeze]
  split
  · rw [map_map]
    apply map_congr_left
    intro p _
    simp only [Function.comp_apply]
    split <;> rfl
  · rfl

@[simp] theorem paths_nextCheck : a.nextCheck.1.paths = a.paths := by
  have hfold : ∀ (keys : List (String × UInt16)) (pairs : List CandidatePair),
      (keys.foldl unfreeze pairs).map CandidatePair.path = pairs.map CandidatePair.path := by
    intro keys
    induction keys with
    | nil => exact fun _ => rfl
    | cons key keys ih => exact fun pairs => (ih _).trans (map_path_unfreeze pairs key)
  simp only [nextCheck]
  split
  · exact hfold _ a.pairs
  · simp only [paths]
    rw [map_path_modify fun _ => by rfl]
    exact hfold _ a.pairs

@[simp] theorem paths_trackCheck (txid : TransactionId) (idx : ℕ) (base : SocketAddr) (now : ℕ) :
    (a.trackCheck txid idx base now).paths = a.paths := by
  simp only [trackCheck, paths]

@[simp] theorem nominated_trackCheck (txid : TransactionId) (idx : ℕ) (base : SocketAddr)
    (now : ℕ) : (a.trackCheck txid idx base now).nominated = a.nominated := by
  simp only [trackCheck]

@[simp] theorem nominated_nextCheck : a.nextCheck.1.nominated = a.nominated := by
  simp only [nextCheck]
  split <;> rfl

@[simp] theorem nominated_retransmit : (a.retransmit idx).1.nominated = a.nominated := by
  unfold retransmit
  split <;> rfl

@[simp] theorem checksSent_nextCheck : a.nextCheck.1.checksSent = a.checksSent := by
  simp only [nextCheck]
  split <;> rfl

@[simp] theorem checksSent_retransmit : (a.retransmit idx).1.checksSent = a.checksSent := by
  unfold retransmit
  split <;> rfl

@[simp] theorem checksSent_nominate : (a.nominate idx).checksSent = a.checksSent := by
  unfold nominate
  split
  · split <;> rfl
  · rfl

@[simp] theorem checksSent_recordRtt : (a.recordRtt measured).checksSent = a.checksSent := by
  cases measured <;> rfl

@[simp] theorem checksSent_processResponse (msg : Message) (src : SocketAddr) (now : ℕ) :
    (a.processResponse msg src now).1.checksSent = a.checksSent.erase msg.txid := by
  simp only [processResponse]
  split
  · rfl
  · unfold nominateProved
    split
    · rw [checksSent_nominate, checksSent_recordRtt]
      rfl
    · rw [checksSent_recordRtt]
      rfl

variable {txid : TransactionId}

theorem lookup_trackCheck {a : IceAgent} {k : TransactionId} {idx now : ℕ} {base : SocketAddr}
    {sent : ℕ × SocketAddr × ℕ}
    (h : (a.trackCheck txid idx base now).checksSent.lookup k = some sent) :
    k = txid ∧ sent.1 = idx ∨ k ≠ txid ∧ a.checksSent.lookup k = some sent := by
  simp only [trackCheck] at h
  rcases Table.lookup_insert_eq_some.mp (Table.lookup_foldl_erase_eq_some.mp h).2 with
    ⟨hk, hsent⟩ | hold
  · exact .inl ⟨hk, congrArg Prod.fst hsent.symm⟩
  · exact .inr hold

theorem find?_paths {a : IceAgent} {addr : SocketAddr} {i : ℕ}
    (h : (a.pairs.findIdx? fun p => p.remote.addr = addr) = some i) :
    a.paths[i]? = a.pathTo addr := by
  have hfound : a.pairs.find? (fun p => p.remote.addr = addr) = a.pairs[i]? := by
    rw [find?_eq_bind_findIdx?_getElem?, h, Option.bind_some]
  rw [pathTo, paths, find?_map, getElem?_map, ← hfound]
  rfl

theorem pathTo_eq_none {a : IceAgent} {addr : SocketAddr}
    (h : (a.pairs.findIdx? fun p => p.remote.addr = addr) = none) : a.pathTo addr = none := by
  rw [findIdx?_eq_none_iff] at h
  rw [pathTo, paths, find?_map, Option.map_eq_none_iff, find?_eq_none]
  intro p hp hsame
  exact Bool.false_ne_true ((h p hp).symm.trans hsame)

theorem matchResponse_of_tracked {a : IceAgent} {now : ℕ} {sent : ℕ × SocketAddr × ℕ}
    (h : a.checksSent.lookup txid = some sent) (hlt : sent.1 < a.pairs.length) (src : SocketAddr) :
    (a.matchResponse txid src now).1 = some sent.1 := by
  simp only [matchResponse, h, Option.map_some, hlt, if_true]

theorem matchResponse_of_untracked {a : IceAgent} {src : SocketAddr} {now idx : ℕ}
    (h : a.checksSent.lookup txid = none) (hidx : (a.matchResponse txid src now).1 = some idx) :
    a.paths[idx]? = a.pathTo src := by
  simp only [matchResponse, h, Option.map_none] at hidx
  exact find?_paths hidx

theorem nominated_nominate_succeed {a : IceAgent} {idx : ℕ} (h : idx < a.pairs.length) :
    ((a.succeed idx).nominate idx).nominated = some idx := by
  have hpair : (a.succeed idx).pairs[idx]? =
      some { a.pairs[idx] with state := .succeeded } := by
    rw [succeed, getElem?_modify_eq, getElem?_eq_getElem h]
    rfl
  rw [nominate, hpair]
  rfl

theorem nominated_nominate :
    (a.nominate idx).nominated = a.nominated ∨
      (a.nominate idx).nominated = some idx ∧ idx < a.paths.length := by
  unfold nominate
  split
  · rename_i p hp
    split
    · refine .inr ⟨rfl, ?_⟩
      rw [paths, length_map]
      exact (List.getElem?_eq_some_iff.mp hp).1
    · exact .inl rfl
  · exact .inl rfl

@[simp] theorem nominated_recordRtt : (a.recordRtt measured).nominated = a.nominated := by
  cases measured <;> rfl

theorem nominated_processResponse (msg : Message) (src : SocketAddr) (now : ℕ) :
    (a.processResponse msg src now).1.nominated = a.nominated ∨
      a.role = .controlling ∧ a.nominated = none ∧
        ∃ idx, (a.matchResponse msg.txid src now).1 = some idx ∧ idx < a.paths.length ∧
          (a.processResponse msg src now).1.nominated = some idx := by
  cases hfound : (a.matchResponse msg.txid src now).1 with
  | none => exact .inl (by simp only [processResponse, hfound])
  | some idx =>
      simp only [processResponse, hfound, nominateProved]
      split
      · rename_i hproves
        rw [nominated_recordRtt] at hproves
        have hrole : a.role = .controlling := by
          rw [← hproves.1]
          cases (a.matchResponse msg.txid src now).2 <;> rfl
        rcases nominated_nominate (recordRtt _ _) idx with hkeep | ⟨hnew, hlt⟩
        · exact .inl (hkeep.trans (nominated_recordRtt _ _))
        · rw [paths_recordRtt, paths_succeed] at hlt
          exact .inr ⟨hrole, hproves.2, idx, rfl, hlt, hnew⟩
      · exact .inl (nominated_recordRtt _ _)

@[simp] theorem paths_processResponse (msg : Message) (src : SocketAddr) (now : ℕ) :
    (a.processResponse msg src now).1.paths = a.paths := by
  simp only [processResponse]
  split
  · rfl
  · unfold nominateProved
    split
    · rw [paths_nominate, paths_recordRtt, paths_succeed]
      rfl
    · rw [paths_recordRtt, paths_succeed]
      rfl

/-- Pairs may have been added at the end, and checks may be tracked no more. -/
structure Extends (a b : IceAgent) : Prop where
  paths : ∃ more, b.paths = a.paths ++ more
  checksSent : ∀ k sent, b.checksSent.lookup k = some sent → a.checksSent.lookup k = some sent

theorem Extends.of_eq {a b : IceAgent} (hpaths : b.paths = a.paths)
    (hsent : b.checksSent = a.checksSent) : a.Extends b where
  paths := ⟨[], by rw [hpaths, append_nil]⟩
  checksSent k sent h := by rwa [hsent] at h

theorem Extends.getElem? {a b : IceAgent} (h : a.Extends b) {idx : ℕ} {path : Path}
    (hidx : a.paths[idx]? = some path) : b.paths[idx]? = some path := by
  obtain ⟨more, hmore⟩ := h.paths
  rw [hmore, getElem?_append_left (List.getElem?_eq_some_iff.mp hidx).1, hidx]

theorem NominatedOn.extend {a b : IceAgent} {path : Path} (h : a.NominatedOn path)
    (hext : a.Extends b) (hnominated : b.nominated = a.nominated) : b.NominatedOn path := by
  intro idx hidx
  rw [hnominated] at hidx
  exact hext.getElem? (h idx hidx)

theorem matchRequest_cases (src : SocketAddr) :
    (∃ b e, a.matchRequest src = (b, .error e) ∧ a.Extends b ∧ b.nominated = a.nominated) ∨
      ∃ b idx l, a.matchRequest src = (b, .ok idx) ∧ a.Extends b ∧ b.nominated = a.nominated ∧
        b.paths[idx]? = some (l, src) ∧ a.localFor src = some l := by
  cases hfind : a.pairs.findIdx? fun p => p.remote.addr = src with
  | some i =>
      obtain ⟨hi, hsrc, -⟩ := findIdx?_eq_some_iff_getElem.mp hfind
      have hpair : a.paths[i]? = some (a.pairs[i].local_.addr, src) := by
        rw [paths, getElem?_map, getElem?_eq_getElem hi, ← of_decide_eq_true hsrc]
        rfl
      refine .inr ⟨a, i, a.pairs[i].local_.addr, ?_, .of_eq rfl rfl, rfl, hpair, ?_⟩
      · simp only [matchRequest, hfind]
      · simp only [localFor, ← find?_paths hfind, hpair]
  | none =>
      cases hlocal : a.localCandidates.head? with
      | none =>
          refine .inl ⟨(a.matchRequest src).1, .noCandidates, ?_, .of_eq ?_ ?_, ?_⟩
          all_goals
            simp only [matchRequest, hfind, hlocal]
            try rfl
      | some l =>
          refine .inr ⟨(a.matchRequest src).1, a.pairs.length, l.addr, ?_,
            ⟨⟨[(l.addr, src)], ?_⟩, ?_⟩, ?_, ?_, ?_⟩
          · simp only [matchRequest, hfind, hlocal]
          · simp only [matchRequest, hfind, hlocal, paths, map_append]
            rfl
          · simp only [matchRequest, hfind, hlocal]
            exact fun _ _ h => h
          · simp only [matchRequest, hfind, hlocal]
          · simp only [matchRequest, hfind, hlocal, paths, map_append]
            rw [getElem?_append_right (by rw [length_map]), length_map, Nat.sub_self]
            rfl
          · simp only [localFor, pathTo_eq_none hfind, hlocal]
            rfl

theorem processRequest_cases {a : IceAgent} {d : Digests} {msg : Message} {src : SocketAddr}
    (hrole : a.losesConflict msg = false) :
    a.Extends (a.processRequest d msg src).1 ∧
      ((a.processRequest d msg src).1.nominated = a.nominated ∨
        (msg.get Attr.useCandidate).isSome = true ∧
          ∃ idx l, (a.processRequest d msg src).1.nominated = some idx ∧
            (a.processRequest d msg src).1.paths[idx]? = some (l, src) ∧
            a.localFor src = some l) := by
  have hresolve : a.resolveRole msg = a := by
    rw [resolveRole, hrole]
    rfl
  rcases matchRequest_cases a src with ⟨b, e, hmatch, hext, hnominated⟩ |
    ⟨b, idx, l, hmatch, hext, hnominated, hidx, hlocal⟩
  · have hresult : a.processRequest d msg src = (b, .error e) := by
      simp only [processRequest, hresolve, hmatch]
    rw [hresult]
    exact ⟨hext, .inl hnominated⟩
  · obtain ⟨more, hpaths⟩ := hext.paths
    cases huse : (msg.get Attr.useCandidate).isSome with
    | false =>
        simp only [processRequest, hresolve, hmatch, huse, Bool.false_eq_true, if_false]
        exact ⟨⟨⟨more, by rw [paths_succeed, hpaths]⟩, hext.checksSent⟩, .inl hnominated⟩
    | true =>
        have hlt : idx < b.pairs.length := by
          have hbound := (List.getElem?_eq_some_iff.mp hidx).1
          rwa [paths, length_map] at hbound
        simp only [processRequest, hresolve, hmatch, huse, if_true]
        refine ⟨⟨⟨more, by rw [paths_nominate, paths_succeed, hpaths]⟩, ?_⟩, .inr ⟨trivial,
          idx, l, nominated_nominate_succeed hlt, ?_, hlocal⟩⟩
        · rw [checksSent_nominate]
          exact hext.checksSent
        · rw [paths_nominate, paths_succeed, hidx]

theorem NominatedOn.selectedPair {a : IceAgent} {path : Path} (h : a.NominatedOn path)
    {p : CandidatePair} (hp : a.selectedPair = some p) : p.path = path := by
  unfold IceAgent.selectedPair at hp
  split at hp
  · cases hp
  · rename_i idx hidx
    split at hp
    · rename_i q hq
      split at hp
      · cases hp
        have hpath := h idx hidx
        rw [paths, getElem?_map, hq] at hpath
        exact Option.some.inj hpath
      · cases hp
    · cases hp

end IceAgent

/-! ### The run -/

structure SentCheck where
  raw : Bytes
  txid : TransactionId
  path : Path
  /-- It carries `USE-CANDIDATE`. -/
  nominating : Bool

structure SentAnswer where
  raw : Bytes
  txid : TransactionId
  path : Path

/-- The controlling agent is the left one. -/
structure Connectivity where
  agent : Side → IceAgent
  checks : Side → List SentCheck
  answers : Side → List SentAnswer

namespace Connectivity

inductive Act where
  | nextCheck (s : Side)
  | retransmit (s : Side) (idx : ℕ)
  | buildCheck (s : Side) (idx : ℕ) (nominate : Bool) (txid : TransactionId) (now : ℕ)
  | deliverCheck (s : Side) (n : ℕ) (now : ℕ)
  | deliverAnswer (s : Side) (n : ℕ) (now : ℕ)

def setAgent (w : Connectivity) (s : Side) (a : IceAgent) : Connectivity :=
  { w with agent := Function.update w.agent s a }

@[simp] theorem agent_setAgent_self (w : Connectivity) (s : Side) (a : IceAgent) :
    (w.setAgent s a).agent s = a := Function.update_self ..

variable {s : Side}

theorem agent_setAgent_of_ne {t : Side} (h : t ≠ s) (w : Connectivity) (a : IceAgent) :
    (w.setAgent s a).agent t = w.agent t := Function.update_of_ne h ..

variable (d : Digests)

def step (w : Connectivity) : Act → Connectivity
  | .nextCheck s => w.setAgent s (w.agent s).nextCheck.1
  | .retransmit s idx => w.setAgent s ((w.agent s).retransmit idx).1
  | .buildCheck s idx nominate txid now =>
      let (a, result) := (w.agent s).buildCheck d idx nominate txid now
      let sent := match result, (w.agent s).pairs[idx]? with
        | .ok raw, some pair =>
            [{ raw := raw, txid := txid, path := pair.path,
               nominating := nominate && (w.agent s).role = .controlling }]
        | _, _ => []
      { w.setAgent s a with checks := Function.update w.checks s (w.checks s ++ sent) }
  | .deliverCheck s n now =>
      match (w.checks s.peer)[n]? with
      | none => w
      | some c =>
          let (a, result) := (w.agent s).handleCheck d c.raw c.path.1 now
          let sent := (Negotiation.responseOf result).map fun raw =>
            { raw := raw, txid := c.txid, path := c.path.swap }
          { w.setAgent s a with answers := Function.update w.answers s (w.answers s ++ sent) }
  | .deliverAnswer s n now =>
      match (w.answers s.peer)[n]? with
      | none => w
      | some r => w.setAgent s ((w.agent s).handleCheck d r.raw r.path.1 now).1

/-- Two honest agents of opposite roles that hold each other's credentials and candidates, with
different tie-breakers and their check lists formed, before anything is sent. No two candidates of
an agent share an address. -/
structure Start (w : Connectivity) : Prop where
  controlling : (w.agent .left).role = .controlling
  controlled : (w.agent .right).role = .controlled
  credentials : ∀ s, (w.agent s).remoteCredentials = some (w.agent s.peer).localCredentials
  valid : ∀ s, (w.agent s).localCredentials.Valid
  tieBreakers : (w.agent .left).tieBreaker ≠ (w.agent .right).tieBreaker
  candidates : ∀ s, (w.agent s).remoteCandidates = (w.agent s.peer).localCandidates
  distinct : ∀ s, ((w.agent s).localCandidates.map (·.addr)).Nodup
  formed : ∀ s, w.agent s = (w.agent s).formPairs
  checks : ∀ s, w.checks s = []
  answers : ∀ s, w.answers s = []

/-- The pairs that the two agents report as selected, if both do, mirror each other. -/
def Mirrored (w : Connectivity) : Prop :=
  ∀ p ∈ (w.agent .left).selectedPair, ∀ q ∈ (w.agent .right).selectedPair,
    p.local_.addr = q.remote.addr ∧ p.remote.addr = q.local_.addr

/-- The controlling agent keeps to one path: each of its checks has a transaction of its own, those
with `USE-CANDIDATE` are for this path, and every answer it handles before it has nominated came
back on this path, to a check that is still tracked or whose path is the first to that address. The
controlled agent matches a check with `USE-CANDIDATE` from the near end to the far end. -/
def KeepsTo (path : Path) (w : Connectivity) : Act → Prop
  | .buildCheck .left idx nominate txid _ =>
      (∀ c ∈ w.checks .left, c.txid ≠ txid) ∧
        (nominate = true → ∀ pair ∈ (w.agent .left).pairs[idx]?, pair.path = path)
  | .deliverCheck .right n _ => ∀ c ∈ (w.checks .left)[n]?, c.nominating = true →
      ∀ l ∈ (w.agent .right).localFor path.1, l = path.2
  | .deliverAnswer .left n _ => (w.agent .left).nominated = none →
      ∀ r ∈ (w.answers .right)[n]?, r.path = path.swap ∧
        (((w.agent .left).checksSent.lookup r.txid).isSome = true ∨
          ∀ first ∈ (w.agent .left).pathTo path.2, first = path)
  | _ => True

def IsCheck (key : Bytes) (role : IceRole) (c : SentCheck) : Prop :=
  ∃ m : Message, m.Sealable ∧ m.typ = .new .binding .request ∧ c.raw = m.encodeWithIntegrity d key ∧
    m.txid = c.txid ∧ (∀ r, claims (m.sealed d key) r = decide (r = role)) ∧
    ((m.sealed d key).get Attr.useCandidate).isSome = c.nominating

def IsAnswer (r : SentAnswer) : Prop :=
  ∃ m : Message, m.typ = .new .binding .successResponse ∧ r.raw = m.encode ∧ m.txid = r.txid

/-- What holds along a run that keeps to a path. A tracked check names the pair it was built for,
an answer has the transaction of a check that went the other way, and what is nominated on either
side is on the path. -/
structure Inv (path : Path) (start : Side → Party) (w : Connectivity) : Prop where
  party : ∀ s, (w.agent s).party = start s
  checks : ∀ s, ∀ c ∈ w.checks s,
    IsCheck d (utf8 (start s.peer).localCredentials.password) (start s).role c
  controlled : ∀ c ∈ w.checks .right, c.nominating = false
  onPath : ∀ c ∈ w.checks .left, c.nominating = true → c.path = path
  tracked : ∀ c ∈ w.checks .left, ∀ sent, (w.agent .left).checksSent.lookup c.txid = some sent →
    (w.agent .left).paths[sent.1]? = some c.path
  answers : ∀ s, ∀ r ∈ w.answers s, IsAnswer r
  answered : ∀ r ∈ w.answers .right, ∃ c ∈ w.checks .left, c.txid = r.txid ∧ c.path.swap = r.path
  left : (w.agent .left).NominatedOn path
  right : (w.agent .right).NominatedOn path.swap

structure Honest (start : Side → Party) : Prop where
  controlling : (start .left).role = .controlling
  controlled : (start .right).role = .controlled
  credentials : ∀ s, (start s).remoteCredentials = some (start s.peer).localCredentials
  valid : ∀ s, (start s).localCredentials.Valid

variable {d} {path : Path} {start : Side → Party} {w : Connectivity}

theorem Honest.role_ne (h : Honest start) (s : Side) : (start s).role ≠ (start s.peer).role := by
  cases s
  · change (start .left).role ≠ (start .right).role
    rw [h.controlling, h.controlled]
    decide
  · change (start .right).role ≠ (start .left).role
    rw [h.controlling, h.controlled]
    decide

theorem Inv.setAgent (h : w.Inv d path start) {a : IceAgent} (hparty : a.party = (w.agent s).party)
    (hext : (w.agent s).Extends a) (hleft : s = .left → a.NominatedOn path)
    (hright : s = .right → a.NominatedOn path.swap) : (w.setAgent s a).Inv d path start := by
  have hsides : ∀ t, ((w.setAgent s a).agent t).party = start t := by
    intro t
    by_cases ht : t = s
    · subst ht
      rw [agent_setAgent_self, hparty, h.party]
    · rw [agent_setAgent_of_ne ht, h.party]
  cases s with
  | left =>
      refine { h with party := hsides, tracked := ?_, left := ?_, right := ?_ }
      · intro c hc sent hsent
        rw [agent_setAgent_self] at hsent ⊢
        exact hext.getElem? (h.tracked c hc sent (hext.checksSent _ _ hsent))
      · rw [agent_setAgent_self]
        exact hleft rfl
      · rw [agent_setAgent_of_ne (by decide)]
        exact h.right
  | right =>
      refine { h with party := hsides, tracked := ?_, left := ?_, right := ?_ }
      · rw [agent_setAgent_of_ne (by decide)]
        exact h.tracked
      · rw [agent_setAgent_of_ne (by decide)]
        exact h.left
      · rw [agent_setAgent_self]
        exact hright rfl

theorem Inv.setAgent_keep (h : w.Inv d path start) {a : IceAgent}
    (hparty : a.party = (w.agent s).party) (hext : (w.agent s).Extends a)
    (hnominated : a.nominated = (w.agent s).nominated) : (w.setAgent s a).Inv d path start := by
  apply h.setAgent hparty hext
  · rintro rfl
    exact h.left.extend hext hnominated
  · rintro rfl
    exact h.right.extend hext hnominated

/-- A check is sent: the agent tracks it under a transaction that no other check has. -/
theorem Inv.send (h : w.Inv d path start) {a : IceAgent} {c : SentCheck}
    (hparty : a.party = (w.agent s).party) (hnominated : a.nominated = (w.agent s).nominated)
    (hpaths : a.paths = (w.agent s).paths)
    (hcheck : IsCheck d (utf8 (start s.peer).localCredentials.password) (start s).role c)
    (hcontrolled : s = .right → c.nominating = false)
    (honPath : s = .left → c.nominating = true → c.path = path)
    (hfresh : s = .left → ∀ old ∈ w.checks .left, old.txid ≠ c.txid)
    (htracked : ∀ k sent, a.checksSent.lookup k = some sent →
      k = c.txid ∧ a.paths[sent.1]? = some c.path ∨
        k ≠ c.txid ∧ (w.agent s).checksSent.lookup k = some sent) :
    Inv d path start { w.setAgent s a with
      checks := Function.update w.checks s (w.checks s ++ [c]) } where
  party t := by
    by_cases ht : t = s
    · subst ht
      exact (congrArg IceAgent.party (agent_setAgent_self w t a)).trans (hparty.trans (h.party t))
    · exact (congrArg IceAgent.party (agent_setAgent_of_ne ht w a)).trans (h.party t)
  checks t e he := by
    rcases mem_update_append.mp he with hold | ⟨rfl, hnew⟩
    · exact h.checks t e hold
    · rw [mem_singleton.mp hnew]
      exact hcheck
  controlled e he := by
    rcases mem_update_append.mp he with hold | ⟨rfl, hnew⟩
    · exact h.controlled e hold
    · rw [mem_singleton.mp hnew]
      exact hcontrolled rfl
  onPath e he := by
    rcases mem_update_append.mp he with hold | ⟨rfl, hnew⟩
    · exact h.onPath e hold
    · rw [mem_singleton.mp hnew]
      exact honPath rfl
  tracked e he sent hsent := by
    have hmem := mem_update_append.mp he
    cases s with
    | left =>
        simp only [agent_setAgent_self] at hsent ⊢
        rcases hmem with hold | ⟨-, hnew⟩
        · rcases htracked _ _ hsent with ⟨hsame, -⟩ | ⟨-, hbefore⟩
          · exact absurd hsame (hfresh rfl e hold)
          · rw [hpaths]
            exact h.tracked e hold sent hbefore
        · rw [mem_singleton.mp hnew] at hsent ⊢
          rcases htracked _ _ hsent with ⟨-, hpath⟩ | ⟨hne, -⟩
          · exact hpath
          · exact absurd rfl hne
    | right =>
        simp only [agent_setAgent_of_ne (show Side.left ≠ .right by decide)] at hsent ⊢
        rcases hmem with hold | ⟨hside, -⟩
        · exact h.tracked e hold sent hsent
        · cases hside
  answers := h.answers
  answered r hr := by
    obtain ⟨e, he, heq⟩ := h.answered r hr
    exact ⟨e, mem_update_append.mpr (.inl he), heq⟩
  left idx hidx := by
    cases s with
    | left =>
        simp only [agent_setAgent_self] at hidx ⊢
        rw [hpaths]
        exact h.left idx (hnominated.symm.trans hidx)
    | right =>
        simp only [agent_setAgent_of_ne (show Side.left ≠ .right by decide)] at hidx ⊢
        exact h.left idx hidx
  right idx hidx := by
    cases s with
    | right =>
        simp only [agent_setAgent_self] at hidx ⊢
        rw [hpaths]
        exact h.right idx (hnominated.symm.trans hidx)
    | left =>
        simp only [agent_setAgent_of_ne (show Side.right ≠ .left by decide)] at hidx ⊢
        exact h.right idx hidx

theorem Inv.buildCheck (h : w.Inv d path start) (hon : Honest start) {idx : ℕ} {nominate : Bool}
    {txid : TransactionId} {now : ℕ}
    (hkeeps : w.KeepsTo path (.buildCheck s idx nominate txid now)) :
    (w.step d (.buildCheck s idx nominate txid now)).Inv d path start := by
  have hcreds : (w.agent s).remoteCredentials = some (start s.peer).localCredentials := by
    rw [← hon.credentials s]
    exact congrArg Party.remoteCredentials (h.party s)
  have hlocal : (w.agent s).localCredentials = (start s).localCredentials :=
    congrArg Party.localCredentials (h.party s)
  have hrole : (w.agent s).role = (start s).role := congrArg Party.role (h.party s)
  cases hpair : (w.agent s).pairs[idx]? with
  | none =>
      have hsame : w.step d (.buildCheck s idx nominate txid now) = w := by
        simp [Connectivity.step, IceAgent.buildCheck, hpair, Connectivity.setAgent]
      rw [hsame]
      exact h
  | some pair =>
      have hpath : (w.agent s).paths[idx]? = some pair.path := by
        rw [IceAgent.paths, getElem?_map, hpair]
        rfl
      simp only [Connectivity.step, IceAgent.buildCheck, hpair, hcreds]
      apply h.send (party_trackCheck ..) (IceAgent.nominated_trackCheck ..)
        (IceAgent.paths_trackCheck ..)
      · refine ⟨_, sealable_checkMessage pair nominate txid (hon.valid s.peer)
          (by rw [hlocal]; exact hon.valid s), typ_checkMessage .., rfl,
          txid_checkMessage .., ?_, useCandidate_sealed ..⟩
        intro r
        rw [claims_sealed, hrole]
      · rintro rfl
        rw [hrole, hon.controlled]
        exact Bool.and_false _
      · rintro rfl hnominating
        exact hkeeps.2 (Bool.and_eq_true_iff.mp hnominating).1 pair hpair
      · rintro rfl
        exact hkeeps.1
      · intro k sent hsent
        rcases IceAgent.lookup_trackCheck hsent with ⟨hk, hidx⟩ | hold
        · refine .inl ⟨hk, ?_⟩
          rw [IceAgent.paths_trackCheck, hidx, hpath]
        · exact .inr hold

/-- The pair that an answer is matched to before the nomination is on the path. -/
theorem Inv.matched (h : w.Inv d path start) {n now idx : ℕ} {r : SentAnswer}
    (hkeeps : w.KeepsTo path (.deliverAnswer .left n now)) (hr : (w.answers .right)[n]? = some r)
    (hnone : (w.agent .left).nominated = none)
    (hmatch : ((w.agent .left).matchResponse r.txid r.path.1 now).1 = some idx)
    (hidx : idx < (w.agent .left).paths.length) :
    (w.agent .left).paths[idx]? = some path := by
  obtain ⟨hrpath, hfrom⟩ := hkeeps hnone r hr
  obtain ⟨c, hc, htxid, hcpath⟩ := h.answered r (mem_of_getElem? hr)
  have hpath : c.path = path := Prod.swap_injective (hcpath.trans hrpath)
  cases hsent : (w.agent .left).checksSent.lookup r.txid with
  | some sent =>
      have hat := h.tracked c hc sent (by rw [htxid]; exact hsent)
      have hlt : sent.1 < (w.agent .left).pairs.length := by
        have hbound := (List.getElem?_eq_some_iff.mp hat).1
        rwa [IceAgent.paths, length_map] at hbound
      rw [IceAgent.matchResponse_of_tracked hsent hlt] at hmatch
      rw [← Option.some.inj hmatch, hat, hpath]
  | none =>
      rw [hsent] at hfrom
      have hfirst := hfrom.resolve_left Bool.false_ne_true
      have hto := IceAgent.matchResponse_of_untracked hsent hmatch
      rw [getElem?_eq_getElem hidx, hrpath] at hto
      rw [getElem?_eq_getElem hidx, hfirst _ hto.symm]

theorem Inv.deliverAnswer (h : w.Inv d path start) (hon : Honest start) {n now : ℕ}
    (hkeeps : w.KeepsTo path (.deliverAnswer s n now)) :
    (w.step d (.deliverAnswer s n now)).Inv d path start := by
  simp only [Connectivity.step]
  cases hr : (w.answers s.peer)[n]? with
  | none => exact h
  | some r =>
      obtain ⟨m, htyp, hraw, htxid⟩ := h.answers s.peer r (mem_of_getElem? hr)
      dsimp only
      rw [hraw]
      rcases handleCheck_response d htyp (w.agent s) r.path.1 now with
        hsame | ⟨msg, hmsg, heq⟩
      · rw [hsame]
        exact h.setAgent_keep rfl (.of_eq rfl rfl) rfl
      rw [heq]
      have hparty := party_processResponse (w.agent s) msg r.path.1 now
      have hpaths := IceAgent.paths_processResponse (w.agent s) msg r.path.1 now
      have hext : (w.agent s).Extends ((w.agent s).processResponse msg r.path.1 now).1 := by
        refine ⟨⟨[], by rw [hpaths, append_nil]⟩, ?_⟩
        intro k sent hsent
        rw [IceAgent.checksSent_processResponse] at hsent
        exact (Table.lookup_erase_eq_some.mp hsent).2
      rcases IceAgent.nominated_processResponse (w.agent s) msg r.path.1 now with
        hkeep | ⟨hrole, hnone, idx, hmatch, hlt, hnew⟩
      · exact h.setAgent_keep hparty hext hkeep
      cases s with
      | right =>
          have hcontrolled : (w.agent .right).role = .controlled := by
            rw [← hon.controlled]
            exact congrArg Party.role (h.party .right)
          rw [hcontrolled] at hrole
          cases hrole
      | left =>
          -- The nomination is taken from this answer.
          apply h.setAgent hparty hext
          · intro _ i hi
            rw [hnew] at hi
            rw [hmsg, htxid] at hmatch
            rw [← Option.some.inj hi, hpaths]
            exact h.matched hkeeps hr hnone hmatch hlt
          · exact fun hside => nomatch hside

theorem isAnswer_of_processRequest (s : Side) {c : SentCheck} {m : Message}
    (hc : m.txid = c.txid) {r : SentAnswer}
    (hr : r ∈ (Negotiation.responseOf (((w.agent s).processRequest d
      (m.sealed d (utf8 (w.agent s).localCredentials.password)) c.path.1).2.map some)).map
        fun raw => ({ raw := raw, txid := c.txid, path := c.path.swap } : SentAnswer)) :
    IsAnswer r := by
  obtain ⟨raw, hraw, rfl⟩ := mem_map.mp hr
  cases hresult : ((w.agent s).processRequest d
      (m.sealed d (utf8 (w.agent s).localCredentials.password)) c.path.1).2 with
  | error e =>
      rw [hresult] at hraw
      cases hraw
  | ok outcome =>
      rw [hresult] at hraw
      have hanswer : outcome.response = some raw := by
        simpa [Negotiation.responseOf, Except.map] using hraw
      rw [Negotiation.response_processRequest d hresult] at hanswer
      cases hanswer
      refine ⟨(responseMessage _ c.path.1).sealed d _, Negotiation.typ_responseMessage ..,
        rfl, ?_⟩
      have htxid : ∀ (msg : Message) (src : SocketAddr),
          (responseMessage msg src).txid = msg.txid := by
        intro msg src
        simp only [responseMessage]
        split <;> rfl
      exact (htxid _ _).trans hc

theorem Inv.party_processRequest (h : w.Inv d path start) (hon : Honest start) (s : Side) {msg : Message}
    (hclaims : ∀ r, claims msg r = decide (r = (start s.peer).role)) (src : SocketAddr) :
    (w.agent s).losesConflict msg = false ∧
      ((w.agent s).processRequest d msg src).1.party = (w.agent s).party := by
  have hrole : (w.agent s).role = (start s).role := congrArg Party.role (h.party s)
  have hloses : (w.agent s).losesConflict msg = false := by
    rw [losesConflict, hclaims, hrole, decide_eq_false (hon.role_ne s), Bool.false_and]
  refine ⟨hloses, ?_⟩
  rw [IceAgent.party_processRequest, party_resolveRole, hloses]
  rfl

theorem Inv.deliverCheck (h : w.Inv d path start) (hon : Honest start) {n now : ℕ}
    (hkeeps : w.KeepsTo path (.deliverCheck s n now)) :
    (w.step d (.deliverCheck s n now)).Inv d path start := by
  simp only [Connectivity.step]
  cases hc : (w.checks s.peer)[n]? with
  | none => exact h
  | some c =>
      have hmem := mem_of_getElem? hc
      obtain ⟨m, hm, htyp, hraw, htxid, hclaims, huse⟩ := h.checks s.peer c hmem
      have hlocal : (start s).localCredentials = (w.agent s).localCredentials :=
        (congrArg Party.localCredentials (h.party s)).symm
      rw [Side.peer_peer, hlocal] at hraw hclaims huse
      obtain ⟨hloses, hparty⟩ := h.party_processRequest hon s hclaims c.path.1
      obtain ⟨hext, hcases⟩ := @IceAgent.processRequest_cases (w.agent s) d _ c.path.1 hloses
      dsimp only
      rw [hraw, handleCheck_request d hm htyp rfl]
      set msg := m.sealed d (utf8 (w.agent s).localCredentials.password) with hmsg
      have hset : (w.setAgent s ((w.agent s).processRequest d msg c.path.1).1).Inv d path
          start := by
        rcases hcases with hkeep | ⟨hasks, idx, l, hnew, hidx, hl⟩
        · exact h.setAgent_keep hparty hext hkeep
        have hnominating : c.nominating = true := huse.symm.trans hasks
        apply h.setAgent hparty hext
        · rintro rfl
          have hno := h.controlled c hmem
          rw [hnominating] at hno
          cases hno
        · rintro rfl i hi
          have hpath := h.onPath c hmem hnominating
          rw [hpath] at hl hidx hnew hi ⊢
          rw [hnew] at hi
          rw [← Option.some.inj hi, hidx, hkeeps c hc hnominating l hl]
          rfl
      refine { hset with answers := ?_, answered := ?_ }
      · intro t r hr
        rcases mem_update_append.mp hr with hold | ⟨rfl, hnew⟩
        · exact h.answers t r hold
        · exact isAnswer_of_processRequest t htxid hnew
      · intro r hr
        rcases mem_update_append.mp hr with hold | ⟨rfl, hnew⟩
        · exact h.answered r hold
        · obtain ⟨raw, -, rfl⟩ := mem_map.mp hnew
          exact ⟨c, hmem, rfl, rfl⟩

theorem Inv.step (h : w.Inv d path start) (hon : Honest start) (act : Act)
    (hkeeps : w.KeepsTo path act) : (w.step d act).Inv d path start := by
  cases act with
  | nextCheck s =>
      exact h.setAgent_keep (party_nextCheck _)
        (.of_eq (IceAgent.paths_nextCheck _) (IceAgent.checksSent_nextCheck _))
        (IceAgent.nominated_nextCheck _)
  | retransmit s idx =>
      exact h.setAgent_keep (party_retransmit _ idx)
        (.of_eq (IceAgent.paths_retransmit _ idx) (IceAgent.checksSent_retransmit _ idx))
        (IceAgent.nominated_retransmit _ idx)
  | buildCheck s idx nominate txid now => exact h.buildCheck hon hkeeps
  | deliverCheck s n now => exact h.deliverCheck hon hkeeps
  | deliverAnswer s n now => exact h.deliverAnswer hon hkeeps

theorem Inv.mirrored (h : w.Inv d path start) : w.Mirrored := by
  intro p hp q hq
  have hleft : p.path = path := h.left.selectedPair hp
  have hright : q.path = path.swap := h.right.selectedPair hq
  rw [← hleft] at hright
  exact ⟨(congrArg Prod.snd hright).symm, (congrArg Prod.fst hright).symm⟩

theorem Start.honest (h : w.Start) : Honest fun s => (w.agent s).party where
  controlling := h.controlling
  controlled := h.controlled
  credentials := h.credentials
  valid := h.valid

theorem Start.inv (h : w.Start) : w.Inv d path fun s => (w.agent s).party := by
  have hnone : ∀ s (p : Path), (w.agent s).NominatedOn p := by
    intro s p idx hidx
    rw [h.formed s] at hidx
    cases hidx
  constructor
  case party => exact fun s => rfl
  case left => exact hnone .left path
  case right => exact hnone .right path.swap
  all_goals simp [h.checks, h.answers]

/-- In every run that keeps to one path, the pairs that the two agents report as selected mirror
each other in every state. -/
theorem selected_pairs_mirror (d : Digests) (path : Path) {w : Connectivity} (hw : w.Start)
    {as : List Act} (hkeeps : Always (Connectivity.step d) (KeepsTo path) w as) :
    w.Mirrored ∧ Always (Connectivity.step d) (fun u act => (u.step d act).Mirrored) w as := by
  have hinv : w.Inv d path fun s => (w.agent s).party := hw.inv
  refine ⟨hinv.mirrored, ?_⟩
  exact Always.of_invariant (Inv d path fun s => (w.agent s).party)
    (fun u act hu hact => hu.step hw.honest act hact)
    (fun u act hu hact => (hu.step hw.honest act hact).mirrored) hinv hkeeps

instance (path : Path) : ∀ (w : Connectivity) (act : Act), Decidable (w.KeepsTo path act)
  | _, .buildCheck .left _ _ _ _ => by unfold KeepsTo; infer_instance
  | _, .deliverCheck .right _ _ => by unfold KeepsTo; infer_instance
  | _, .deliverAnswer .left _ _ => by unfold KeepsTo; infer_instance
  | _, .buildCheck .right _ _ _ _ => isTrue trivial
  | _, .deliverCheck .left _ _ => isTrue trivial
  | _, .deliverAnswer .right _ _ => isTrue trivial
  | _, .nextCheck _ => isTrue trivial
  | _, .retransmit _ _ => isTrue trivial

instance (w : Connectivity) : Decidable w.Mirrored := by unfold Mirrored; infer_instance

/-- A controlling agent with two addresses, and a controlled one with a single address. -/
def twoPaths : Connectivity where
  agent
    | .left => hostAgent .left .controlling 7 [1, 2] [9]
    | .right => hostAgent .right .controlled 3 [9] [1, 2]
  checks _ := []
  answers _ := []

theorem start_twoPaths : twoPaths.Start where
  controlling := rfl
  controlled := rfl
  credentials s := by cases s <;> rfl
  valid s := by cases s <;> exact valid_credentials _
  tieBreakers := by
    change (7 : UInt64) ≠ 3
    decide
  candidates s := by cases s <;> rfl
  distinct s := by
    cases s
    · change ([hostAddr 1, hostAddr 2] : List SocketAddr).Nodup
      decide
    · exact nodup_singleton _
  formed s := by cases s <;> exact (formPairs_formPairs _).symm
  checks _ := rfl
  answers _ := rfl

/-- Both paths are checked with `USE-CANDIDATE`. The controlled agent nominates the one whose check
arrives last, the controlling agent the one whose answer arrives first. -/
theorem crossed_nominations :
    twoPaths.Start ∧ ¬ (([.nextCheck .left, .buildCheck .left 0 true (Block.zeroPadded 12 [1]) 0,
      .nextCheck .left, .buildCheck .left 1 true (Block.zeroPadded 12 [2]) 0,
      .deliverCheck .right 0 1, .deliverCheck .right 1 2, .deliverAnswer .left 0 3] :
        List Act).foldl (Connectivity.step .front) twoPaths).Mirrored :=
  ⟨start_twoPaths, by decide +kernel⟩

/-- One path is checked; it is selected by both. -/
theorem single_nomination_mirrors :
    twoPaths.Mirrored ∧ Always (Connectivity.step .front)
      (fun u act => (u.step .front act).Mirrored) twoPaths
      [.nextCheck .left, .buildCheck .left 0 true (Block.zeroPadded 12 [1]) 0,
        .deliverCheck .right 0 1, .deliverAnswer .left 0 2] :=
  selected_pairs_mirror .front (hostAddr 1, hostAddr 9) start_twoPaths (by decide +kernel)

end Connectivity

end Vantablack.Ice
