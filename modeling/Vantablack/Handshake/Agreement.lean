import Vantablack.Handshake.Network

/-!
What an authenticated session says about the other end. The proof of a peer signs the master
key, the master key fixes the two key shares, and a share that an honest node has drawn leads
back to that node, unless a message carries it under another identity.
-/

namespace Vantablack.Handshake

open Lib Layers Receive Session HybridCipherSuite List

variable {C : Crypto} {P : Primitives C} {Q : BindingPrimitives C} {ι : Type}

/-- The key derivation is injective in the suite and the two shares. -/
def Primitives.BindsShares (P : Primitives C) : Prop :=
  ∀ suite suite' dh dh' kem kem' psk psk' xi xi' xr xr' ct ct' pqi pqi' pqr pqr',
    P.deriveHybridMasterKeyWithTranscript suite dh kem psk xi xr ct pqi pqr =
        P.deriveHybridMasterKeyWithTranscript suite' dh' kem' psk' xi' xr' ct' pqi' pqr' →
      suite = suite' ∧ xi = xi' ∧ xr = xr'

/-- The security category of the KEM of a suite. -/
def category : HybridCipherSuite → ℕ
  | x25519MlKem512V2 => 1
  | x25519MlKem768V3 => 3

/-- No suite that the nodes support is stronger. Every node supports `localSuites`. -/
def Strongest (suite : HybridCipherSuite) : Prop :=
  suite ∈ localSuites ∧ ∀ other ∈ localSuites, category other ≤ category suite
  deriving Decidable

namespace Network

/-- If a session is authenticated and its pinned identity is that of an honest node, this node
has registered a session with the same master key and suite that is pinned to us, and no
stronger suite was to be had. -/
def Agreement (sys : System Q ι) (w : Network P ι) : Prop :=
  ∀ i fp s, w.session i fp = some s → s.isPqAuthenticated = true →
    ∀ j, s.peerIdentityPk = some (sys.cfg j).identityPk.toList →
      ∃ s', (j, s') ∈ w.registered ∧ s'.masterKey = s.masterKey ∧
        s'.cipherSuite = s.cipherSuite ∧
        s'.peerIdentityPk = some (sys.cfg i).identityPk.toList ∧ Strongest s.cipherSuite

/-- A message that is accepted and carries the share of an honest node carries its identity
too, and a proof is checked for the session it then authenticates. -/
def Unspliced (sys : System Q ι) (w : Network P ι) : NetworkAct P ι → Prop
  | .deliver i d =>
      (handleNegotiated (sys.cfg i) (w.nodes i) d).registered.isSome = true →
        ∀ x ∈ negotiated (sys.cfg i) d, ∀ k, (k, x.1.x25519Pub) ∈ w.drawn →
          x.1.identityPk = (sys.cfg k).identityPk
  | .conclude k =>
      ∀ c ∈ w.checks[k]?, ∀ s ∈ w.session c.node c.fp,
        s.masterKey = c.masterKey ∧ s.peerIdentityPk = c.pinnedPk
  | _ => True

instance [Fintype ι] [DecidableEq ι] (sys : System Q ι) (w : Network P ι) :
    ∀ a, Decidable (w.Unspliced sys a)
  | .deliver _ _ | .conclude _ => by
      dsimp only [Unspliced]
      infer_instance
  | .initiate _ _ _ _ _ | .prove _ _ | .chunk _ _ _ | .operate _ _ _ | .close _ _ =>
      inferInstanceAs (Decidable True)

/-! ### The invariant -/

/-- Two states of one session, as far as the handshake goes. -/
def SameHandshake (s s' : Session C) : Prop :=
  s.masterKey = s'.masterKey ∧ s.cipherSuite = s'.cipherSuite ∧
    s.peerIdentityPk = s'.peerIdentityPk ∧ s.peerPqCommitment = s'.peerPqCommitment

variable {s : Session C}

theorem SameHandshake.trans {s' s'' : Session C} (h : SameHandshake s s')
    (h' : SameHandshake s' s'') : SameHandshake s s'' :=
  ⟨h.1.trans h'.1, h.2.1.trans h'.2.1, h.2.2.1.trans h'.2.2.1, h.2.2.2.trans h'.2.2.2⟩

theorem sameHandshake_of_standing {s' : Session C} (h : s.standing = s'.standing) :
    SameHandshake s s' ∧ s.pqAuthState = s'.pqAuthState :=
  ⟨⟨congrArg Standing.masterKey h, congrArg Standing.cipherSuite h,
    congrArg Standing.peerIdentityPk h, congrArg Standing.peerPqCommitment h⟩,
    congrArg Standing.pqAuthState h⟩

/-- The session comes from a share of its own node and one of the peer, which is of the
pinned identity if it is of an honest node at all. -/
def Derived (sys : System Q ι) (w : Network P ι) (i : ι) (s : Session C) : Prop :=
  ∃ own peer pk, (i, own) ∈ w.drawn ∧ peer ∈ w.seen ∧ s.peerIdentityPk = some pk.toList ∧
    s.peerPqCommitment.isSome = true ∧
    (∀ k, (k, peer) ∈ w.drawn → pk = (sys.cfg k).identityPk) ∧
    ∃ dh kem psk ct pqi pqr,
      (pk ≠ (sys.cfg i).identityPk ∧ s.masterKey =
        P.deriveHybridMasterKeyWithTranscript s.cipherSuite dh kem psk peer own ct pqi pqr) ∨
      (s.cipherSuite = x25519MlKem768V3 ∧ s.masterKey =
        P.deriveHybridMasterKeyWithTranscript s.cipherSuite dh kem psk own peer ct pqi pqr)

structure Inv (sys : System Q ι) (w : Network P ι) : Prop where
  seen : ∀ i x, (i, x) ∈ w.drawn → x ∈ w.seen
  once : ∀ i j x, (i, x) ∈ w.drawn → (j, x) ∈ w.drawn → i = j
  pending : ∀ i t xSecret kem512 kem768 offered,
    (w.nodes i).pendingHs.lookup t = some (.negotiated xSecret kem512 kem768 offered) →
    (i, shareOf P xSecret) ∈ w.drawn ∧ offered = localSuites
  table : ∀ i fp s, w.session i fp = some s → ∃ s', (i, s') ∈ w.registered ∧ SameHandshake s s'
  derived : ∀ i s, (i, s) ∈ w.registered → w.Derived sys i s
  proofs : ∀ i masterKey pqPk, (i, masterKey, pqPk) ∈ w.proofs →
    ∃ s, (i, s) ∈ w.registered ∧ s.masterKey = masterKey
  authenticated : ∀ i fp s, w.session i fp = some s → s.pqAuthState = 1 →
    ∀ j, s.peerIdentityPk = some (sys.cfg j).identityPk.toList →
      ∃ s', (j, s') ∈ w.registered ∧ s'.masterKey = s.masterKey

theorem inv_start (sys : System Q ι) (revocationList : ι → Option (Table String ℕ))
    (reputation : ι → Option P.Reputation) : Inv sys (start revocationList reputation) := by
  constructor <;> intros <;> simp_all [start, session]

variable {sys : System Q ι} {w : Network P ι}

theorem Inv.agreement (h : Inv sys w) (hkdf : P.BindsShares) : w.Agreement sys := by
  intro i fp s hs hauth j hj
  obtain ⟨s₀, hreg, hmaster, hsuite, hpk, hcommit⟩ := h.table i fp s hs
  obtain ⟨own, peer, pk, hown, -, hpinned, hsome, hpeer, dh, kem, psk, ct, pqi, pqr, hrole⟩ :=
    h.derived i s₀ hreg
  have hstate : s.pqAuthState = 1 := by
    rw [isPqAuthenticated, hcommit, Option.isNone_eq_false_iff.mpr hsome] at hauth
    simpa using hauth
  have hjpk : pk = (sys.cfg j).identityPk := by
    rw [hpk, hpinned, Option.some_inj] at hj
    exact List.Vector.toList_injective hj
  obtain ⟨s', hreg', hmaster'⟩ := h.authenticated i fp s hs hstate j hj
  obtain ⟨own', peer', pk', hown', -, hpinned', -, hpeer', dh', kem', psk', ct', pqi', pqr',
    hrole'⟩ := h.derived j s' hreg'
  have hsame : s'.masterKey = s₀.masterKey := hmaster'.trans hmaster
  have hstrong : Strongest x25519MlKem768V3 := by decide
  rw [hsuite, hmaster]
  rcases hrole with ⟨hforeign, hkey⟩ | ⟨hbest, hkey⟩ <;>
    rcases hrole' with ⟨hforeign', hkey'⟩ | ⟨hbest', hkey'⟩ <;>
    rw [hkey, hkey'] at hsame <;>
    obtain ⟨hsuites, hxi, hxr⟩ := hkdf _ _ _ _ _ _ _ _ _ _ _ _ _ _ _ _ _ _ hsame
  · -- both answered: the share is ours and theirs, so we would have answered ourselves
    subst hxr
    have hij := h.once _ _ _ hown hown'
    exact absurd (hij ▸ hjpk) hforeign
  · -- we answered their offer
    subst hxr
    refine ⟨s', hreg', hmaster'.trans hmaster, hsuites, ?_, ?_⟩
    · rw [hpinned', hpeer' i hown]
    · rw [← hsuites, hbest']
      exact hstrong
  · -- they answered our offer
    subst hxi
    refine ⟨s', hreg', hmaster'.trans hmaster, hsuites, ?_, ?_⟩
    · rw [hpinned', hpeer' i hown]
    · rw [hbest]
      exact hstrong
  · -- both offered: it is one node, with a session to itself
    subst hxi
    have hij := h.once _ _ _ hown hown'
    refine ⟨s₀, hij ▸ hreg, rfl, rfl, ?_, ?_⟩
    · rw [hpinned, hjpk, hij]
    · rw [hbest]
      exact hstrong

/-! ### Steps on the sessions -/

/-- The pinned identity, if it is of an honest node, has a session with this master key. -/
def Answered (sys : System Q ι) (w : Network P ι) (s : Session C) : Prop :=
  ∀ j, s.peerIdentityPk = some (sys.cfg j).identityPk.toList →
    ∃ s', (j, s') ∈ w.registered ∧ s'.masterKey = s.masterKey

variable {w' : Network P ι}

theorem Inv.of_sessions (h : Inv sys w) (hdrawn : w'.drawn = w.drawn) (hseen : w'.seen = w.seen)
    (hregistered : w'.registered = w.registered) (hproofs : w'.proofs = w.proofs)
    (hpending : ∀ i, (w'.nodes i).pendingHs = (w.nodes i).pendingHs)
    (hsession : ∀ i fp s, w'.session i fp = some s → ∃ s₀, w.session i fp = some s₀ ∧
      SameHandshake s s₀ ∧ (s.pqAuthState = 1 → s₀.pqAuthState = 1 ∨ w.Answered sys s₀)) :
    Inv sys w' := by
  constructor
  · rw [hdrawn, hseen]
    exact h.seen
  · rw [hdrawn]
    exact h.once
  · intro i t xSecret kem512 kem768 offered hp
    rw [hpending] at hp
    rw [hdrawn]
    exact h.pending i t xSecret kem512 kem768 offered hp
  · intro i fp s hs
    obtain ⟨s₀, hs₀, hsame, -⟩ := hsession i fp s hs
    obtain ⟨s', hs', hsame'⟩ := h.table i fp s₀ hs₀
    rw [hregistered]
    exact ⟨s', hs', hsame.trans hsame'⟩
  · rw [hregistered]
    intro i s hs
    have hd := h.derived i s hs
    unfold Derived at hd ⊢
    rw [hdrawn, hseen]
    exact hd
  · rw [hregistered, hproofs]
    exact h.proofs
  · intro i fp s hs hstate j hj
    obtain ⟨s₀, hs₀, hsame, hauth⟩ := hsession i fp s hs
    rw [hsame.2.2.1] at hj
    rw [hregistered, hsame.1]
    rcases hauth hstate with hold | hanswered
    · exact h.authenticated i fp s₀ hs₀ hold j hj
    · exact hanswered j hj

theorem Inv.setChecks (h : Inv sys w) (checks : List (ProofCheck C ι)) :
    Inv sys { w with checks := checks } :=
  ⟨h.seen, h.once, h.pending, h.table, h.derived, h.proofs, h.authenticated⟩

theorem Inv.prove (h : Inv sys w) (i : ι) (fp : String) : Inv sys (w.prove sys i fp) := by
  unfold Network.prove
  split
  · exact h
  rename_i s hs
  refine ⟨h.seen, h.once, h.pending, h.table, h.derived, ?_, h.authenticated⟩
  intro j masterKey pqPk hmem
  rcases mem_cons.mp hmem with heq | hmem
  · cases heq
    obtain ⟨s', hs', hsame⟩ := h.table i fp s hs
    exact ⟨s', hs', hsame.1.symm⟩
  · exact h.proofs j masterKey pqPk hmem

theorem Derived.draw {i k : ι} {x : Octets 32} (h : w.Derived sys i s)
    (hdrawn : w'.drawn = (k, x) :: w.drawn) (hseen : w.seen ⊆ w'.seen) (hfresh : x ∉ w.seen) :
    w'.Derived sys i s := by
  obtain ⟨own, peer, pk, hown, hpeer, hpinned, hsome, hshare, hrole⟩ := h
  refine ⟨own, peer, pk, ?_, hseen hpeer, hpinned, hsome, ?_, hrole⟩
  · rw [hdrawn]
    exact mem_cons_of_mem _ hown
  · intro k' hk'
    rw [hdrawn] at hk'
    rcases mem_cons.mp hk' with heq | hold
    · cases heq
      exact absurd hpeer hfresh
    · exact hshare k' hold

theorem Inv.once_draw (h : Inv sys w) {k : ι} {x : Octets 32} (hfresh : x ∉ w.seen) :
    ∀ i j y, (i, y) ∈ (k, x) :: w.drawn → (j, y) ∈ (k, x) :: w.drawn → i = j := by
  intro i j y hi hj
  rcases mem_cons.mp hi with hi | hi <;> rcases mem_cons.mp hj with hj | hj
  · cases hi
    cases hj
    rfl
  · cases hi
    exact absurd (h.seen j _ hj) hfresh
  · cases hj
    exact absurd (h.seen i _ hi) hfresh
  · exact h.once i j y hi hj

theorem Inv.derived_of_leaves (h : Inv sys w) {i : ι} {d : Datagram C} {m : Message}
    (hleaves : Leaves (sys.cfg i) (w.nodes i) d m s)
    (hdrawn : w'.drawn = (i, d.fresh.xPub P) :: w.drawn) (hseen : m.x25519Pub ∈ w'.seen)
    (hne : d.fresh.xPub P ≠ m.x25519Pub)
    (hguard : ∀ k, (k, m.x25519Pub) ∈ w.drawn → m.identityPk = (sys.cfg k).identityPk) :
    w'.Derived sys i s := by
  obtain ⟨hpinned, hsome, -, dh, kem, psk, ct, pqi, pqr, hrole⟩ := hleaves
  have hshare : ∀ k, (k, m.x25519Pub) ∈ w'.drawn → m.identityPk = (sys.cfg k).identityPk := by
    intro k hk
    rw [hdrawn] at hk
    rcases mem_cons.mp hk with heq | hold
    · exact absurd (Prod.ext_iff.mp heq).2.symm hne
    · exact hguard k hold
  rcases hrole with ⟨hforeign, hkey⟩ | ⟨xSecret, kem512, kem768, offered, hpending, hsuite, hkey⟩
  · refine ⟨d.fresh.xPub P, m.x25519Pub, m.identityPk, ?_, hseen, hpinned, hsome, hshare,
      dh, kem, psk, ct, pqi, pqr, Or.inl ⟨hforeign, hkey⟩⟩
    rw [hdrawn]
    exact mem_cons_self
  · obtain ⟨hown, rfl⟩ := h.pending i d.src xSecret kem512 kem768 offered hpending
    refine ⟨shareOf P xSecret, m.x25519Pub, m.identityPk, ?_, hseen, hpinned, hsome, hshare,
      dh, kem, psk, ct, pqi, pqr, Or.inr ⟨?_, hkey⟩⟩
    · rw [hdrawn]
      exact mem_cons_of_mem _ hown
    · have hbest : negotiateCipherSuite localSuites (localSuites.map wireId) =
          some x25519MlKem768V3 := rfl
      rw [hbest] at hsuite
      exact (Option.some_inj.mp hsuite).symm

/-! ### All the steps -/

section Steps

variable [DecidableEq ι]

variable {w : Network P ι} {i : ι} {fp : String} {s : Session C}

theorem session_setNode {j : ι} {st : NodeState P} (h : (w.setNode i st).session j fp = some s) :
    (j = i ∧ st.sessions.lookup fp = some s) ∨ (j ≠ i ∧ w.session j fp = some s) := by
  by_cases hj : j = i
  · subst hj
    rw [session, nodes_setNode_self] at h
    exact Or.inl ⟨rfl, h⟩
  · rw [session, nodes_setNode_of_ne w hj] at h
    exact Or.inr ⟨hj, h⟩

theorem session_setSession {j : ι} {fp' : String} {s' : Session C}
    (h : (w.setSession i fp s).session j fp' = some s') :
    (j = i ∧ fp' = fp ∧ s' = s) ∨ w.session j fp' = some s' := by
  rcases session_setNode h with ⟨rfl, hs⟩ | ⟨_, hs⟩
  · rcases Table.lookup_insert_eq_some.mp hs with ⟨rfl, rfl⟩ | ⟨_, hold⟩
    · exact Or.inl ⟨rfl, rfl, rfl⟩
    · exact Or.inr hold
  · exact Or.inr hs

theorem session_dropSession {j : ι} {fp' : String}
    (h : (w.dropSession i fp).session j fp' = some s) : w.session j fp' = some s := by
  rcases session_setNode h with ⟨rfl, hs⟩ | ⟨_, hs⟩
  · exact (Table.lookup_erase_eq_some.mp hs).2
  · exact hs

theorem pendingHs_setSession (w : Network P ι) (i j : ι) (fp : String) (s : Session C) :
    ((w.setSession i fp s).nodes j).pendingHs = (w.nodes j).pendingHs := by
  by_cases hj : j = i
  · subst hj
    rw [setSession, nodes_setNode_self]
  · rw [setSession, nodes_setNode_of_ne w hj]

theorem pendingHs_dropSession (w : Network P ι) (i j : ι) (fp : String) :
    ((w.dropSession i fp).nodes j).pendingHs = (w.nodes j).pendingHs := by
  by_cases hj : j = i
  · subst hj
    rw [dropSession, nodes_setNode_self]
  · rw [dropSession, nodes_setNode_of_ne w hj]

variable {sys : System Q ι}

theorem Inv.setSession (h : Inv sys w) {s₀ : Session C} (hs₀ : w.session i fp = some s₀)
    (hsame : SameHandshake s s₀)
    (hauth : s.pqAuthState = 1 → s₀.pqAuthState = 1 ∨ w.Answered sys s₀)
    (checks : List (ProofCheck C ι)) : Inv sys { w.setSession i fp s with checks := checks } := by
  refine h.of_sessions rfl rfl rfl rfl (fun j => pendingHs_setSession w i j fp s) ?_
  intro j fp' s' hs'
  rcases session_setSession hs' with ⟨rfl, rfl, rfl⟩ | hold
  · exact ⟨s₀, hs₀, hsame, hauth⟩
  · exact ⟨s', hold, ⟨rfl, rfl, rfl, rfl⟩, Or.inl⟩

theorem Inv.dropSession (h : Inv sys w) (i : ι) (fp : String) : Inv sys (w.dropSession i fp) := by
  refine h.of_sessions rfl rfl rfl rfl (fun j => pendingHs_dropSession w i j fp) ?_
  intro j fp' s' hs'
  exact ⟨s', session_dropSession hs', ⟨rfl, rfl, rfl, rfl⟩, Or.inl⟩

theorem Inv.chunk (h : Inv sys w) (i : ι) (fp : String) (payload : Bytes) :
    Inv sys (w.chunk i fp payload) := by
  unfold Network.chunk
  split
  · rename_i s chunkIdx totalChunks data hs _
    split
    · exact h
    obtain ⟨hsame, hstate⟩ := sameHandshake_of_standing
      (standing_storePqChunk s chunkIdx totalChunks data)
    exact h.setSession hs hsame (fun hauth => Or.inl (hstate ▸ hauth)) _
  · exact h

theorem Inv.operate (h : Inv sys w) (i : ι) (fp : String) (op : SessionOp C) :
    Inv sys (w.operate i fp op) := by
  unfold Network.operate
  split
  · exact h
  rename_i s hs
  obtain ⟨hsame, hstate⟩ := sameHandshake_of_standing (SessionOp.standing_run s op)
  exact h.setSession hs hsame (fun hauth => Or.inl (hstate ▸ hauth)) w.checks

theorem Inv.conclude (h : Inv sys w) {k : ℕ} (hideal : w.Ideal sys (.conclude k))
    (hguard : w.Unspliced sys (.conclude k)) : Inv sys (w.conclude Q k) := by
  unfold Network.conclude
  split
  · exact h
  rename_i c hc
  have hchecks := h.setChecks (w.checks.eraseIdx k)
  have hideal := hideal c hc
  have hguard := hguard c hc
  unfold finishCheck
  split
  · exact hchecks.dropSession c.node c.fp
  rename_i pk hpk
  split
  · exact hchecks.dropSession c.node c.fp
  rename_i pqPk hverify
  split
  · exact hchecks
  rename_i s hs
  obtain ⟨hmaster, hpinned⟩ := hguard s hs
  refine hchecks.setSession (s := { s.setPqAuthenticated true with peerPqPk := some pqPk }) hs
    ⟨rfl, rfl, rfl, rfl⟩ (fun _ => Or.inr ?_) (w.checks.eraseIdx k)
  intro j hj
  obtain ⟨b, hb, hed, -, hsigned⟩ := verifyHybridBinding_eq_ok hverify
  have hjed : b.edPk = (sys.cfg j).identityPk := by
    rw [hpinned, hpk, Option.some_inj] at hj
    exact List.Vector.toList_injective (hed.trans hj)
  rw [hmaster]
  exact h.proofs j c.masterKey b.pqPk (hideal b hb j hjed hsigned)

theorem Inv.initiate (h : Inv sys w) (i : ι) (t : SocketAddr) {xSecret : C.XSecret}
    (kem512 : C.KemSecret) (kem768 : P.Kem768Secret) (hfresh : shareOf P xSecret ∉ w.seen) :
    Inv sys (w.initiate sys i t xSecret kem512 kem768) := by
  have hsession : ∀ j fp s, (w.initiate sys i t xSecret kem512 kem768).session j fp = some s →
      w.session j fp = some s := by
    intro j fp s hs
    rcases session_setNode (w := w) hs with ⟨rfl, hs⟩ | ⟨_, hs⟩
    · simp only [initiateHandshake, sys.negotiates, Bool.false_eq_true, if_false] at hs
      exact hs
    · exact hs
  constructor
  · intro j x hx
    rcases mem_cons.mp hx with heq | hx
    · cases heq
      exact mem_cons_self
    · exact mem_cons_of_mem _ (h.seen j x hx)
  · exact h.once_draw hfresh
  · intro j t' xSecret' kem512' kem768' offered hp
    by_cases hj : j = i
    · subst hj
      simp only [Network.initiate, nodes_setNode_self, initiateHandshake, sys.negotiates,
        Bool.false_eq_true, if_false] at hp
      rcases Table.lookup_insert_eq_some.mp hp with ⟨_, heq⟩ | ⟨_, hold⟩
      · cases heq
        exact ⟨mem_cons_self, rfl⟩
      · split at hold
        · cases hold
        · obtain ⟨hdrawn, hoffered⟩ := h.pending j t' xSecret' kem512' kem768' offered hold
          exact ⟨mem_cons_of_mem _ hdrawn, hoffered⟩
    · simp only [Network.initiate, nodes_setNode_of_ne w hj] at hp
      obtain ⟨hdrawn, hoffered⟩ := h.pending j t' xSecret' kem512' kem768' offered hp
      exact ⟨mem_cons_of_mem _ hdrawn, hoffered⟩
  · intro j fp s hs
    exact h.table j fp s (hsession j fp s hs)
  · intro j s hs
    exact (h.derived j s hs).draw rfl (subset_cons_self _ _) hfresh
  · exact h.proofs
  · intro j fp s hs
    exact h.authenticated j fp s (hsession j fp s hs)

theorem session_deliver {j : ι} {d : Datagram C} (hs : (w.deliver sys i d).session j fp = some s) :
    w.session j fp = some s ∨ (s.pqAuthState = 0 ∧ (j, s) ∈ (w.deliver sys i d).registered) := by
  rcases session_setNode (w := w) hs with ⟨rfl, hs⟩ | ⟨_, hs⟩
  · cases hreg : (handleNegotiated (sys.cfg j) (w.nodes j) d).registered with
    | none =>
        rw [(handleNegotiated_rejected hreg).1] at hs
        exact Or.inl hs
    | some r =>
        obtain ⟨⟨m, material, -, hleaves⟩, hsessions, -⟩ := handleNegotiated_registered hreg
        rcases hsessions fp s hs with rfl | hs
        · refine Or.inr ⟨hleaves.2.2.1, ?_⟩
          simp only [Network.deliver, hreg]
          exact mem_append_left _ mem_cons_self
        · exact Or.inl hs
  · exact Or.inl hs

theorem pending_deliver {j : ι} {d : Datagram C} {t : SocketAddr} {p : PendingHandshake P}
    (hp : ((w.deliver sys i d).nodes j).pendingHs.lookup t = some p) :
    (w.nodes j).pendingHs.lookup t = some p := by
  by_cases hj : j = i
  · subst hj
    simp only [Network.deliver, nodes_setNode_self] at hp
    cases hreg : (handleNegotiated (sys.cfg j) (w.nodes j) d).registered with
    | none => exact (handleNegotiated_rejected hreg).2 t p hp
    | some r => exact (handleNegotiated_registered hreg).2.2 t p hp
  · simp only [Network.deliver, nodes_setNode_of_ne w hj] at hp
    exact hp

theorem Inv.deliver (h : Inv sys w) {d : Datagram C} (hideal : w.Ideal sys (.deliver i d))
    (hguard : w.Unspliced sys (.deliver i d)) : Inv sys (w.deliver sys i d) := by
  have hfresh := hideal.1
  have hseen : w.seen ⊆ (w.deliver sys i d).seen :=
    fun x hx => mem_cons_of_mem _ (mem_append_right _ hx)
  have hold : w.registered ⊆ (w.deliver sys i d).registered :=
    fun x hx => mem_append_right _ hx
  constructor
  · intro j x hx
    rcases mem_cons.mp hx with heq | hx
    · cases heq
      exact mem_cons_self
    · exact hseen (h.seen j x hx)
  · exact h.once_draw hfresh
  · intro j t xSecret kem512 kem768 offered hp
    obtain ⟨hdrawn, hoffered⟩ :=
      h.pending j t xSecret kem512 kem768 offered (pending_deliver hp)
    exact ⟨mem_cons_of_mem _ hdrawn, hoffered⟩
  · intro j fp s hs
    rcases session_deliver hs with hs | ⟨_, hnew⟩
    · obtain ⟨s', hs', hsame⟩ := h.table j fp s hs
      exact ⟨s', hold hs', hsame⟩
    · exact ⟨s, hnew, rfl, rfl, rfl, rfl⟩
  · intro j s hs
    rcases mem_append.mp hs with hs | hs
    · cases hreg : (handleNegotiated (sys.cfg i) (w.nodes i) d).registered with
      | none =>
          rw [hreg] at hs
          cases hs
      | some r =>
          rw [hreg] at hs
          cases mem_singleton.mp hs
          obtain ⟨⟨m, material, hm, hleaves⟩, -, -⟩ := handleNegotiated_registered hreg
          have haccepted : (handleNegotiated (sys.cfg i) (w.nodes i) d).registered.isSome = true := by
            rw [hreg]
            rfl
          refine h.derived_of_leaves hleaves rfl ?_ (hideal.2 _ hm).1 (hguard haccepted _ hm)
          simp only [Network.deliver, hm]
          exact mem_cons_of_mem _ (mem_append_left _ mem_cons_self)
    · exact (h.derived j s hs).draw rfl hseen hfresh
  · intro j masterKey pqPk hmem
    obtain ⟨s, hs, hkey⟩ := h.proofs j masterKey pqPk hmem
    exact ⟨s, hold hs, hkey⟩
  · intro j fp s hs hstate k hk
    rcases session_deliver hs with hs | ⟨hzero, _⟩
    · obtain ⟨s', hs', hkey⟩ := h.authenticated j fp s hs hstate k hk
      exact ⟨s', hold hs', hkey⟩
    · rw [hzero] at hstate
      cases hstate

theorem Inv.step (h : Inv sys w) {a : NetworkAct P ι} (hideal : w.Ideal sys a)
    (hguard : w.Unspliced sys a) : Inv sys (w.step sys a) := by
  cases a with
  | initiate i t xSecret kem512 kem768 => exact h.initiate i t kem512 kem768 hideal
  | deliver i d => exact h.deliver hideal hguard
  | prove i fp => exact h.prove i fp
  | chunk i fp payload => exact h.chunk i fp payload
  | conclude k => exact h.conclude hideal hguard
  | operate i fp op => exact h.operate i fp op
  | close i fp => exact h.dropSession i fp

/-- In every run against the attacker in which no message carries the share of an honest node
under another identity and no proof authenticates another session than the one it was checked
for, authenticated sessions agree. -/
theorem authenticated_agree (hkdf : P.BindsShares) (sys : System Q ι)
    (revocationList : ι → Option (Table String ℕ)) (reputation : ι → Option P.Reputation)
    (acts : List (NetworkAct P ι))
    (hrun : Always (Network.step sys) (fun w a => w.Ideal sys a ∧ w.Unspliced sys a)
      (start revocationList reputation) acts) :
    (acts.foldl (Network.step sys) (start revocationList reputation)).Agreement sys :=
  (hrun.invariant (Inv sys) (fun _ _ h hg => h.step hg.1 hg.2)
    (inv_start sys revocationList reputation)).agreement hkdf

end Steps

section Relayed

/-- `n` times the same byte. -/
def octets (n : ℕ) (b : UInt8) : Octets n := List.Vector.replicate n b

def symbolicBindings : BindingPrimitives .symbolicShares where
  pqCommitment pk := octets 32 (pk.head?.getD 0)
  verifyEd pk _ _ sig := sig.toList = pk.toList ++ pk.toList
  verifyPq _ _ sig := sig = replicate mlDsa65SigLen 1

/-- Two honest nodes, with identities of ones and of twos. -/
def twoNodes : System symbolicBindings Bool where
  cfg i :=
    { identityPk := octets 32 (cond i 2 1), pqCommitment := octets 32 (cond i 12 11)
      sign := fun _ => octets 64 (cond i 2 1), psk := none, uniform := false, hub := none }
  pqPk i := replicate mlDsa65PkLen (cond i 12 11)
  negotiates := by decide
  committed := by decide +kernel

/-- The datagrams all come from the address of the attacker, who relays them. -/
def relayedDatagram (ctr : ℕ) (data : Bytes) (share : UInt8) : Datagram .symbolicShares :=
  { ctr := ctr, data := data, src := { ip := .v4 (octets 4 9), port := 4000 }
    fresh := { now := 0, unixNow := 0, xSecret := octets 32 share
               coins := replicate 1088 51 }
    start := octets 16 0 }

/-- The offer of the first node, signed by `identity`. -/
def offerAs (identity : UInt8) : Bytes :=
  (buildNegotiatedHandshakePdu localSuites (octets 32 identity) (octets 32 11)
    (fun _ => octets 64 identity) (octets 32 40)
    [(x25519MlKem768V3, replicate 1184 42),
      (x25519MlKem512V2, replicate 800 41)]).getD []

def responsePdu : Bytes :=
  (buildNegotiatedResponsePdu x25519MlKem768V3 (octets 32 2) (octets 32 12)
    (fun _ => octets 64 2) (octets 32 50) (replicate 1088 51)).getD []

/-- The proof of the second node in its eleven chunks. -/
def chunkPdu (idx : ℕ) : Bytes :=
  let binding := 0x02 :: (replicate 32 2 ++ replicate mlDsa65PkLen 12 ++
    replicate 64 2 ++ replicate mlDsa65SigLen 1)
  let chunk := (binding.drop (500 * idx)).take 500
  pqAuthChunkMagic ++ [UInt8.ofNat idx, 11] ++ toBeBytes 2 chunk.length ++ chunk

/-- The first node begins a handshake; its offer reaches the second node under `identity`, the
response and the proof of the second node reach the first. -/
def relayed (identity : UInt8) : List (NetworkAct .symbolic Bool) :=
  [.initiate false { ip := .v4 (octets 4 9), port := 4000 } (octets 32 40)
      (replicate 800 41) (replicate 1184 42),
    .deliver true (relayedDatagram 0 (offerAs identity) 50),
    .prove true (fingerprint (octets 32 identity)),
    .deliver false (relayedDatagram 1 responsePdu 60)] ++
  (range 11).map (fun idx => .chunk false (fingerprint (octets 32 2)) (chunkPdu idx)) ++
  [.conclude 0]

def relayedStart : Network .symbolic Bool := start (fun _ => none) (fun _ => none)

theorem symbolic_bindsShares : Primitives.symbolic.BindsShares := by
  intro suite suite' dh dh' kem kem' psk psk' xi xi' xr xr' ct ct' pqi pqi' pqr pqr' h
  injection h with hsuite _ _ _ htranscript
  injection htranscript with hxi hrest
  injection hrest with hxr _
  exact ⟨hsuite, List.Vector.toList_injective hxi, List.Vector.toList_injective hxr⟩

/-- Relayed as it is, the handshake ends in agreement. -/
theorem authenticated_agree_relayed :
    let w := (relayed 1).foldl (Network.step twoNodes) relayedStart
    w.Agreement twoNodes ∧
      (w.session false (fingerprint (octets 32 2))).any isPqAuthenticated = true := by
  obtain ⟨hrun, hauth⟩ := Always.of_exec_any (Network.step twoNodes)
    (fun w a => w.Ideal twoNodes a ∧ w.Unspliced twoNodes a) relayedStart (relayed 1)
    (fun w => (w.session false (fingerprint (octets 32 2))).any isPqAuthenticated)
    (by decide +kernel)
  exact ⟨authenticated_agree symbolic_bindsShares twoNodes (fun _ => none) (fun _ => none)
    (relayed 1) hrun, hauth⟩

/-- Signed by the attacker instead, the offer makes the second node register a session with
the attacker, whose master key the first node then takes to be shared with the second. -/
theorem relayed_offer_splices_identities :
    Primitives.symbolic.BindsShares ∧
      Always (Network.step twoNodes) (fun w a => w.Ideal twoNodes a) relayedStart (relayed 3) ∧
      ¬ ((relayed 3).foldl (Network.step twoNodes) relayedStart).Agreement twoNodes := by
  obtain ⟨hrun, htest⟩ := Always.of_exec_any (Network.step twoNodes)
    (fun w a => w.Ideal twoNodes a) relayedStart (relayed 3)
    (fun w => (w.session false (fingerprint (octets 32 2))).any fun s =>
      s.isPqAuthenticated && (s.peerIdentityPk = some (octets 32 2).toList &&
        w.registered.all fun x => !x.1 || x.2.peerIdentityPk ≠ some (octets 32 1).toList))
    (by decide +kernel)
  refine ⟨symbolic_bindsShares, hrun, fun h => ?_⟩
  obtain ⟨s, hs, htest⟩ := (Option.any_eq_true _ _).mp htest
  simp only [Bool.and_eq_true, decide_eq_true_eq] at htest
  obtain ⟨hauth, hpinned, hnone⟩ := htest
  obtain ⟨s', hs', -, -, hpinned', -⟩ := h false _ s hs hauth true hpinned
  have hfalse := all_eq_true.mp hnone _ hs'
  simp only [Bool.not_true, Bool.false_or, decide_eq_true_eq] at hfalse
  exact hfalse hpinned'

end Relayed

end Network

end Vantablack.Handshake
