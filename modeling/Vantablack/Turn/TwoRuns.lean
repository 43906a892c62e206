import Vantablack.Turn.Permissions

/-!
Two runs of a server over the same events: what makes them tell the same requests authenticated,
and what makes them hold the same relay ports.
-/

namespace Vantablack.Turn

open Lib Layers Receive Net Stun

/-- What is left of an allocation after a request other than an Allocate. -/
def ServerAllocation.after (a : ServerAllocation) (now : ℕ) : Op → Option ServerAllocation
  | .allocate _ => some a
  | .release => none
  | .refresh secs => some { a with expiresAt := now + secs.toNat }
  | .permit ip => some (a.permit ip now)
  | .bind channel peer => some (if a.conflicts channel peer then a else a.bind channel peer now)

/-- What a request other than an Allocate makes of a relay port and the instant it is held until. -/
def Op.lease (now : ℕ) : Op → UInt16 × ℕ → Option (UInt16 × ℕ)
  | .allocate _, held => some held
  | .release, _ => none
  | .refresh secs, held => some (held.1, now + secs.toNat)
  | .permit _, held => some held
  | .bind _ _, held => some held

namespace TurnServer

section

variable (d : Digests)

def bothStep (w : TurnServer × TurnServer) (e : Event) : TurnServer × TurnServer :=
  (w.1.step d e, w.2.step d e)

theorem foldl_bothStep (w : TurnServer × TurnServer) (es : List Event) :
    es.foldl (bothStep d) w = (es.foldl (step d) w.1, es.foldl (step d) w.2) := by
  induction es generalizing w with
  | nil => rfl
  | cons e es ih => exact ih _

end

/-! ### What is authenticated -/

section Auth

variable (d : Digests)

/-- What a server tells by whether a request is authenticated. -/
structure SameAuth (s t : TurnServer) : Prop where
  config : s.config = t.config
  nonces : s.nonces = t.nonces

variable {d} {s t : TurnServer}

theorem SameAuth.authenticate (h : SameAuth s t) (raw : Bytes) (msg : Message) :
    s.authenticate d raw msg = t.authenticate d raw msg := by
  have hrealm : s.realm = t.realm := congrArg ServerConfig.realm h.config
  have husers : s.users = t.users := congrArg ServerConfig.users h.config
  simp only [TurnServer.authenticate, hrealm, husers, h.nonces]

theorem SameAuth.asked (h : SameAuth s t) (raw : Bytes) : s.asked d raw = t.asked d raw := by
  simp only [TurnServer.asked, h.authenticate]

theorem SameAuth.indicated (h : SameAuth s t) (raw : Bytes) :
    s.indicated d raw = t.indicated d raw := by
  simp only [TurnServer.indicated, h.authenticate]

theorem SameAuth.expire (h : SameAuth s t) (now : ℕ) : SameAuth (s.expire now) (t.expire now) :=
  ⟨h.config, h.nonces⟩

theorem SameAuth.issueNonce (h : SameAuth s t) (draw : Draw) :
    (s.issueNonce draw).1.nonces = (t.issueNonce draw).1.nonces := by
  have hlifetime : s.nonceLifetime = t.nonceLifetime := congrArg ServerConfig.nonceLifetime h.config
  simp only [TurnServer.issueNonce, hlifetime, h.nonces]

variable (d) (s) (draw : Draw) (raw : Bytes) (msg : Message) (src : SocketAddr) (now : ℕ)

theorem nonces_refuse_challenge (reason : String) :
    (s.refuse draw src msg 401 reason).1.nonces = (s.issueNonce draw).1.nonces := rfl

theorem nonces_refuse {code : UInt16} (hcode : ¬ (code = 401 ∨ code = 438)) (reason : String) :
    (s.refuse draw src msg code reason).1.nonces = s.nonces := by
  simp only [refuse, errorResponse, if_neg hcode]

theorem nonces_dispatch :
    (s.dispatch d draw raw msg src now).1.nonces =
      if Guarded msg ∧ (s.authenticate d raw msg).isNone then (s.issueNonce draw).1.nonces
      else s.nonces := by
  by_cases hguarded : Guarded msg
  · have hhandled := handled_dispatch d s draw raw msg src now hguarded
    generalize s.dispatch d draw raw msg src now = out at hhandled ⊢
    cases hhandled with
    | challenged hauth =>
        rw [if_pos ⟨hguarded, by rw [hauth]; rfl⟩]
        exact nonces_refuse_challenge ..
    | refused hauth hcode =>
        rw [if_neg (by simp [hauth])]
        exact nonces_refuse _ _ _ _ hcode.2 _
    | granted hauth => rw [if_neg (by simp [hauth])]
  · rw [if_neg fun h => hguarded h.1, (dispatch_of_not_guarded d s draw raw msg src now hguarded).2]

variable {s}

theorem SameAuth.dispatch (h : SameAuth s t) (src' : SocketAddr) (now' : ℕ) :
    SameAuth (s.dispatch d draw raw msg src now).1 (t.dispatch d draw raw msg src' now').1 where
  config := by rw [config_dispatch, config_dispatch, h.config]
  nonces := by
    rw [nonces_dispatch, nonces_dispatch, h.authenticate, h.issueNonce, h.nonces]

theorem SameAuth.handle (h : SameAuth s t) :
    SameAuth (s.handle d draw raw src now).1 (t.handle d draw raw src now).1 := by
  have hexpired := h.expire now
  simp only [TurnServer.handle]
  split
  · exact hexpired
  · split
    · exact hexpired
    · exact hexpired.dispatch d draw raw _ src now src now

theorem SameAuth.step (h : SameAuth s t) (e : Event) : SameAuth (s.step d e) (t.step d e) := by
  cases e with
  | handle draw raw src now => exact h.handle d draw raw src now
  | peerData txid relayPort peer payload now => exact h
  | sweep now => exact h.expire now

end Auth

section Granted

variable {d : Digests} {s : TurnServer} {client : SocketAddr} {now : ℕ}

/-! ### A request that may have been refused -/

def granted (s : TurnServer) (src : SocketAddr) (now : ℕ) (op : Op) :
    Table SocketAddr ServerAllocation := (s.grant src now op).getD s.allocations

/-- The relay port that an Allocate of the client gets. -/
def portFor (s : TurnServer) (client : SocketAddr) : Option UInt16 :=
  match s.allocations.lookup client with
  | some existing => some existing.relayPort
  | none => s.freePort

theorem lookup_granted_of_ne {src : SocketAddr} (hne : client ≠ src) (op : Op) :
    (s.granted src now op).lookup client = s.allocations.lookup client := by
  unfold granted
  cases hgrant : s.grant src now op with
  | none => rfl
  | some table => exact lookup_grant_of_ne hgrant hne

theorem lookup_granted_allocate (secs : UInt32) :
    (s.granted client now (.allocate secs)).lookup client =
      if client.ip = s.relayIp then s.allocations.lookup client
      else (s.portFor client).map fun port => .fresh port (now + secs.toNat) := by
  rw [granted, grant]
  split
  · rfl
  · change AList.lookup client (((s.portFor client).map fun port =>
      s.allocations.insert client (.fresh port (now + secs.toNat))).getD s.allocations) = _
    cases hport : s.portFor client with
    | some port => exact AList.lookup_insert _
    | none =>
        unfold portFor at hport
        split at hport
        · cases hport
        · assumption

theorem lookup_granted {op : Op} (hop : ∀ secs, op ≠ .allocate secs) :
    (s.granted client now op).lookup client =
      (s.allocations.lookup client).bind (·.after now op) := by
  unfold granted
  cases hs : s.allocations.lookup client with
  | none => cases op <;> simp_all [grant]
  | some a =>
      cases op with
      | allocate secs => exact absurd rfl (hop secs)
      | release => simp [grant, hs, ServerAllocation.after]
      | refresh secs => simp [grant, hs, ServerAllocation.after]
      | permit ip => simp [grant, hs, ServerAllocation.after]
      | bind channel peer =>
          cases hconflicts : a.conflicts channel peer <;>
            simp [grant, hs, ServerAllocation.after, hconflicts]

theorem allocations_handle_granted (s : TurnServer) (draw : Draw) (raw : Bytes) (src : SocketAddr)
    (now : ℕ) :
    (s.handle d draw raw src now).1.allocations =
      match (s.expire now).asked d raw with
      | some op => (s.expire now).granted src now op
      | none => (s.expire now).allocations := by
  rw [allocations_handle]
  cases (s.expire now).asked d raw <;> rfl

end Granted

section Leases

variable {d : Digests} {s t : TurnServer} {now : ℕ}

/-! ### Who holds which relay port -/

/-- The relay port of an allocation, and the instant it lasts until. -/
def lease (s : TurnServer) (c : SocketAddr) : Option (UInt16 × ℕ) :=
  (s.allocations.lookup c).map fun a => (a.relayPort, a.expiresAt)

/-- The same unexpired allocations, up to what they have. -/
def SameLeases (now : ℕ) (s t : TurnServer) : Prop :=
  ∀ c p, now < p.2 → (s.lease c = some p ↔ t.lease c = some p)

theorem lease_eq_some {c : SocketAddr} {p : UInt16 × ℕ} :
    s.lease c = some p ↔
      ∃ a, s.allocations.lookup c = some a ∧ a.relayPort = p.1 ∧ a.expiresAt = p.2 := by
  rw [lease, Option.map_eq_some_iff]
  constructor
  · rintro ⟨a, ha, rfl⟩
    exact ⟨a, ha, Eq.refl _, Eq.refl _⟩
  · rintro ⟨a, ha, hport, hexpiry⟩
    exact ⟨a, ha, Prod.ext hport hexpiry⟩

theorem lease_expire {t' : ℕ} {c : SocketAddr} {p : UInt16 × ℕ} :
    (s.expire t').lease c = some p ↔ s.lease c = some p ∧ t' < p.2 := by
  rw [lease_eq_some, lease_eq_some]
  constructor
  · rintro ⟨a, ha, hport, hexpiry⟩
    obtain ⟨a, hs, hlive, rfl⟩ := lookup_expire.mp ha
    exact ⟨⟨a, hs, hport, hexpiry⟩, hexpiry ▸ hlive⟩
  · rintro ⟨⟨a, ha, hport, hexpiry⟩, hlive⟩
    exact ⟨a.prune t', lookup_expire.mpr ⟨a, ha, hexpiry ▸ hlive, Eq.refl _⟩, hport, hexpiry⟩

theorem SameLeases.expire_eq (h : SameLeases now s t) {t' : ℕ} (ht : now ≤ t') (c : SocketAddr) :
    (s.expire t').lease c = (t.expire t').lease c := by
  apply Option.ext
  intro p
  rw [lease_expire, lease_expire]
  exact and_congr_left fun hlive => h c p (ht.trans_lt hlive)

theorem sameLeases_of_expire_eq (h : ∀ c, (s.expire now).lease c = t.lease c) :
    SameLeases now s t := by
  intro c p hlive
  rw [← h c, lease_expire, and_iff_left hlive]

theorem freePort_eq (hconfig : s.config = t.config) (h : ∀ c, s.lease c = t.lease c) :
    s.freePort = t.freePort := by
  have hmin : s.portMin = t.portMin := congrArg ServerConfig.portMin hconfig
  have hmax : s.portMax = t.portMax := congrArg ServerConfig.portMax hconfig
  have hheld : ∀ u : TurnServer, ∀ p,
      (u.allocations.entries.any fun e => e.2.relayPort = p) = true ↔
        ∃ c expiry, u.lease c = some (p, expiry) := by
    intro u p
    rw [List.any_eq_true]
    constructor
    · rintro ⟨e, he, hport⟩
      exact ⟨e.1, e.2.expiresAt, lease_eq_some.mpr
        ⟨e.2, AList.mem_lookup_iff.mpr he, of_decide_eq_true hport, Eq.refl _⟩⟩
    · rintro ⟨c, expiry, hlease⟩
      obtain ⟨a, ha, hport, -⟩ := lease_eq_some.mp hlease
      exact ⟨⟨c, a⟩, AList.mem_lookup_iff.mp ha, decide_eq_true hport⟩
  have hany : ∀ p, (s.allocations.entries.any fun e => e.2.relayPort = p) =
      t.allocations.entries.any fun e => e.2.relayPort = p := by
    intro p
    rw [Bool.eq_iff_iff, hheld, hheld]
    simp only [h]
  simp only [freePort, hmin, hmax, hany]

theorem portFor_eq (s : TurnServer) (c : SocketAddr) :
    s.portFor c = match s.lease c with
      | some p => some p.1
      | none => s.freePort := by
  rw [portFor, lease]
  cases s.allocations.lookup c <;> rfl

section Handle

variable {draw : Draw} {raw : Bytes} {src : SocketAddr}

theorem lease_handle_of_none (h : (s.expire now).asked d raw = none) (c : SocketAddr) :
    (s.handle d draw raw src now).1.lease c = (s.expire now).lease c := by
  rw [lease, allocations_handle_granted, h]
  rfl

theorem lease_handle_of_ne {c : SocketAddr} (hne : c ≠ src) :
    (s.handle d draw raw src now).1.lease c = (s.expire now).lease c := by
  cases hasked : (s.expire now).asked d raw with
  | none => exact lease_handle_of_none hasked c
  | some op =>
      rw [lease, allocations_handle_granted, hasked]
      dsimp only
      rw [lookup_granted_of_ne hne, lease]

theorem lease_handle_allocate {secs : UInt32}
    (h : (s.expire now).asked d raw = some (.allocate secs)) :
    (s.handle d draw raw src now).1.lease src =
      if src.ip = s.relayIp then (s.expire now).lease src
      else ((s.expire now).portFor src).map fun port => (port, now + secs.toNat) := by
  rw [lease, allocations_handle_granted, h]
  dsimp only
  rw [lookup_granted_allocate]
  change Option.map _ (if src.ip = s.relayIp then _ else _) = _
  split
  · rfl
  · rw [Option.map_map]
    rfl

theorem lease_handle {op : Op} (hop : ∀ secs, op ≠ .allocate secs)
    (h : (s.expire now).asked d raw = some op) :
    (s.handle d draw raw src now).1.lease src = ((s.expire now).lease src).bind (op.lease now) := by
  rw [lease, allocations_handle_granted, h]
  dsimp only
  rw [lookup_granted hop, lease]
  cases (s.expire now).allocations.lookup src with
  | none => rfl
  | some a =>
      rw [Option.bind_some, Option.map_some, Option.bind_some]
      cases op with
      | bind channel peer =>
          simp only [ServerAllocation.after, Op.lease]
          split <;> rfl
      | _ => rfl

end Handle

variable (d) in
theorem SameLeases.handle (hauth : SameAuth s t) (h : SameLeases now s t) {t' : ℕ} (ht : now ≤ t')
    (draw : Draw) (raw : Bytes) (src : SocketAddr) :
    SameLeases now (s.handle d draw raw src t').1 (t.handle d draw raw src t').1 := by
  have heq := fun c => h.expire_eq ht c
  suffices hlease : ∀ c, (s.handle d draw raw src t').1.lease c =
      (t.handle d draw raw src t').1.lease c by
    intro c p _
    rw [hlease]
  intro c
  by_cases hc : c = src
  · subst hc
    cases hasked : (s.expire t').asked d raw with
    | none =>
        have hasked' := ((hauth.expire t').asked raw).symm.trans hasked
        rw [lease_handle_of_none hasked, lease_handle_of_none hasked', heq]
    | some op =>
        have hasked' := ((hauth.expire t').asked raw).symm.trans hasked
        by_cases hop : ∃ secs, op = .allocate secs
        · obtain ⟨secs, rfl⟩ := hop
          have hrelay : s.relayIp = t.relayIp := congrArg ServerConfig.relayIp hauth.config
          rw [lease_handle_allocate hasked, lease_handle_allocate hasked', hrelay, heq, portFor_eq,
            portFor_eq, heq, freePort_eq (hauth.expire t').config heq]
        · have hop' : ∀ secs, op ≠ .allocate secs := fun secs heq => hop ⟨secs, heq⟩
          rw [lease_handle hop' hasked, lease_handle hop' hasked', heq]
  · rw [lease_handle_of_ne hc, lease_handle_of_ne hc, heq]

variable (d) in
theorem SameLeases.step (hauth : SameAuth s t) (h : SameLeases now s t) {e : Event}
    (ht : now ≤ e.time) : SameLeases now (s.step d e) (t.step d e) := by
  cases e with
  | handle draw raw src t' => exact SameLeases.handle d hauth h ht draw raw src
  | peerData txid relayPort peer payload t' => exact h
  | sweep t' =>
      intro c p _
      exact iff_of_eq (congrArg (· = some p) (h.expire_eq ht c))

end Leases

end TurnServer

end Vantablack.Turn
