import Vantablack.Ice.Agent
import Vantablack.Net.StunCovered

/-!
What a check that verifies makes of bytes that its digest does not cover: the agent reads the role
attributes and USE-CANDIDATE wherever they stand.
-/

namespace Vantablack.Ice

open Lib Layers Receive Net Stun

namespace IceAgent

variable (d : Digests)

/-- The tie-breaker with which a request contests a role; with zero it never wins. -/
def contest (msg : Message) (role : IceRole) : UInt64 := if claims msg role then peerTie msg else 0

def nominates (msg : Message) : Bool := (msg.get Attr.useCandidate).isSome

/-- A check that some agent may take for a request of its peer. -/
def Checks (buf : Bytes) (msg : Message) : Prop :=
  msg.typ.method = .binding ∧ msg.typ.cls = .request ∧
    ∃ password, verifyIntegrity d buf (utf8 password) = .ok ()

/-- If they are checks, they contest the same role alike, and both nominate or neither does. -/
def SameCheck (buf : Bytes) (m m' : Message) : Prop :=
  Checks d buf m → (∀ role, contest m role = contest m' role) ∧ nominates m = nominates m'

/-- What a check list works on and ends with. -/
structure View where
  role : IceRole
  pairs : List CandidatePair
  nominated : Option ℕ

def view (a : IceAgent) : View where
  role := a.role
  pairs := a.pairs
  nominated := a.nominated

theorem losesConflict_iff (a : IceAgent) (msg : Message) :
    a.losesConflict msg = true ↔ a.tieBreaker < contest msg a.role := by
  unfold losesConflict contest
  cases claims msg a.role with
  | true => simp
  | false => simp

theorem losesConflict_congr {m m' : Message} (h : ∀ role, contest m role = contest m' role)
    (a : IceAgent) : a.losesConflict m = a.losesConflict m' := by
  rw [Bool.eq_iff_iff, losesConflict_iff, losesConflict_iff, h]

theorem processRequest_congr {m m' : Message} (a : IceAgent) (src : SocketAddr)
    (hloses : a.losesConflict m = a.losesConflict m') (hnominates : nominates m = nominates m') :
    (a.processRequest d m src).1 = (a.processRequest d m' src).1 := by
  unfold nominates at hnominates
  simp only [processRequest, resolveRole, hloses, hnominates]
  split <;> rfl

/-! ### Agents that tell two requests apart -/

/-- An agent with one local candidate and no pairs. -/
def listening (role : IceRole) (tieBreaker : UInt64) (password : String) (base : SocketAddr) :
    IceAgent :=
  (IceAgent.new role tieBreaker { ufrag := "", password := password }).addHostCandidate base base

def nowhere : SocketAddr := { ip := .v4 (Block.zeroPadded 4 []), port := 0 }

variable {d} {role : IceRole} {tie : UInt64} {password : String} {base src : SocketAddr}

theorem role_listening (msg : Message) :
    ((listening role tie password base).processRequest d msg src).1.role =
      if tie < contest msg role then role.other else role := by
  have hparty := congrArg Party.role
    (party_processRequest d (listening role tie password base) msg src)
  rw [party_resolveRole] at hparty
  refine hparty.trans ?_
  have hiff := losesConflict_iff (listening role tie password base) msg
  change (if (listening role tie password base).losesConflict msg then role.other else role) = _
  by_cases h : tie < contest msg role
  · rw [if_pos (hiff.mpr h), if_pos h]
  · rw [if_neg (fun hloses => h (hiff.mp hloses)), if_neg h]

theorem nominated_listening {msg : Message} (h : ¬ tie < contest msg role) :
    ((listening role tie password base).processRequest d msg src).1.nominated =
      if nominates msg then some 0 else none := by
  have hkeep : (listening role tie password base).losesConflict msg = false := by
    rw [Bool.eq_false_iff]
    exact fun hloses => h ((losesConflict_iff _ msg).mp hloses)
  simp only [processRequest, resolveRole, hkeep]
  unfold nominates
  cases (msg.get Attr.useCandidate).isSome <;> rfl

/-! ### A check and what is appended to it -/

section Check

variable {off : ℕ} {b b' : Bytes} (h : SameCovered off b b') {m m' : Message}
  (hm : parse b = .ok m) (hm' : parse b' = .ok m')

include h hm hm'

theorem handleCheck_congr (hsame : SameCheck d b m m') (a : IceAgent) (src : SocketAddr) (now : ℕ) :
    (a.handleCheck d b src now).1 = (a.handleCheck d b' src now).1 := by
  have htyp := h.typ_eq hm hm'
  have htxid := h.txid_eq hm hm'
  simp only [handleCheck, hm, hm', ← htyp]
  by_cases hbinding : m.typ.method = .binding
  · rw [if_neg (not_not.mpr hbinding), if_neg (not_not.mpr hbinding)]
    cases hcls : m.typ.cls with
    | request =>
        simp only [handleRequest, h.verifyIntegrity_eq]
        cases hverify : verifyIntegrity d b' (utf8 a.localCredentials.password) with
        | error e => rfl
        | ok u =>
            rw [← h.verifyIntegrity_eq] at hverify
            obtain ⟨hcontest, hnominates⟩ :=
              hsame ⟨hbinding, hcls, a.localCredentials.password, hverify⟩
            exact processRequest_congr d a src (losesConflict_congr hcontest a) hnominates
    | successResponse =>
        simp only [handleResponse, h.verifyIntegrity_eq, processResponse, htxid]
    | indication => rfl
    | errorResponse => rfl
  · rw [if_pos hbinding, if_pos hbinding]

omit h hm' in
theorem handleCheck_of_verify {a : IceAgent} (hbinding : m.typ.method = .binding)
    (hcls : m.typ.cls = .request)
    (hverify : verifyIntegrity d b (utf8 a.localCredentials.password) = .ok ()) (src : SocketAddr)
    (now : ℕ) : (a.handleCheck d b src now).1 = (a.processRequest d m src).1 := by
  simp only [handleCheck, hm, hbinding, hcls, handleRequest, hverify]
  rfl

theorem sameCheck_of_view (hview : ∀ (a : IceAgent) (src : SocketAddr) (now : ℕ),
    (a.handleCheck d b src now).1.view = (a.handleCheck d b' src now).1.view) :
    SameCheck d b m m' := by
  rintro ⟨hbinding, hcls, password, hverify⟩
  have htyp := h.typ_eq hm hm'
  have hprocess : ∀ role tie,
      ((listening role tie password nowhere).processRequest d m nowhere).1.view =
        ((listening role tie password nowhere).processRequest d m' nowhere).1.view := by
    intro role tie
    have hv := hview (listening role tie password nowhere) nowhere 0
    rwa [handleCheck_of_verify hm hbinding hcls hverify,
      handleCheck_of_verify hm' (htyp ▸ hbinding) (htyp ▸ hcls)
        ((h.verifyIntegrity_eq d _).symm.trans hverify)] at hv
  have hcontest : ∀ role, contest m role = contest m' role := by
    intro role
    have hrole := fun tie => congrArg View.role (hprocess role tie)
    simp only [view, role_listening] at hrole
    have hle : ∀ x y : UInt64,
        (∀ tie, (if tie < x then role.other else role) = if tie < y then role.other else role) →
          x ≤ y := by
      intro x y hxy
      by_contra hlt
      have hy := hxy y
      rw [if_pos (UInt64.not_le.mp hlt), if_neg (UInt64.lt_irrefl y)] at hy
      exact role.other_ne hy
    exact UInt64.le_antisymm (hle _ _ hrole) (hle _ _ fun tie => (hrole tie).symm)
  refine ⟨hcontest, ?_⟩
  have hnominated := congrArg View.nominated (hprocess .controlled (contest m .controlled))
  simp only [view] at hnominated
  rw [nominated_listening (UInt64.lt_irrefl _),
    nominated_listening (by rw [← hcontest]; exact UInt64.lt_irrefl _)] at hnominated
  cases hn : nominates m <;> cases hn' : nominates m' <;> simp_all

theorem view_handleCheck_iff :
    (∀ (a : IceAgent) (src : SocketAddr) (now : ℕ),
      (a.handleCheck d b src now).1.view = (a.handleCheck d b' src now).1.view) ↔
      SameCheck d b m m' :=
  ⟨sameCheck_of_view h hm hm', fun hsame a src now =>
    congrArg view (handleCheck_congr h hm hm' hsame a src now)⟩

end Check

end IceAgent

end Vantablack.Ice
