import Vantablack.Lib.Runs
import Vantablack.Vpn.Hub

/-!
Concurrent calls of `handle_tunnel_payload` for one client on one session. A call notes the session,
checks the epoch, opens the datagram, adopts its epoch in three accesses, observes the packet and
routes it. Each access under a lock is one step, and the steps of the calls interleave.
-/

namespace Vantablack.Vpn

open Lib Layers Receive SessionGuardU64 List

variable {ι K : Type} [DecidableEq ι]

/-- The client, and the session its datagrams come in on. -/
structure TunnelSession (K : Type) where
  fp : String
  masterKey : K
  sessionHash : Octets 4

/-- The access a call makes next, with its local variables. -/
inductive TunnelCall where
  | noting (wire : Bytes) (src : SocketAddr)
  | checking (wire : Bytes) (src : SocketAddr)
  | opening (wire : Bytes) (src : SocketAddr) (currentEpoch : Option ℕ)
  | adopting (wire : Bytes) (src : SocketAddr) (ipPacket : Bytes)
  | anchoring (wire : Bytes) (src : SocketAddr) (ipPacket : Bytes)
  | pruning (wire : Bytes) (src : SocketAddr) (ipPacket : Bytes)
  | observing (wire : Bytes) (src : SocketAddr) (ipPacket : Bytes)
  | routing (wire : Bytes) (src : SocketAddr) (ipPacket : Bytes)

namespace TunnelCall

/-- The datagram of a call that has opened it. -/
def accepted : TunnelCall → Option Bytes
  | adopting wire _ _ | anchoring wire _ _ | pruning wire _ _ | observing wire _ _
  | routing wire _ _ => some wire
  | _ => none

/-- One access to the tables of the hub, and what the call does next. -/
def access (A : TunnelCipher K) (s : TunnelSession K) (h : VpnHub K) (now : ℕ) :
    TunnelCall → VpnHub K × Option TunnelCall
  | noting wire src => (h.noteSession s.fp s.masterKey s.sessionHash src, some (checking wire src))
  | checking wire src =>
      let currentEpoch := h.ingressEpochs.lookup s.fp
      (h, if currentEpoch.any (wireEpoch wire < ·) then none
        else some (opening wire src currentEpoch))
  | opening wire src currentEpoch =>
      let (outcome, ingress) := h.ingress.openWire A now s.masterKey s.fp (wireEpoch wire) wire
      ({ h with ingress := ingress },
        match outcome with
        | .accepted ipPacket _ =>
            some (if currentEpoch ≠ some (wireEpoch wire) then adopting wire src ipPacket
              else observing wire src ipPacket)
        | _ => none)
  | adopting wire src ipPacket =>
      ({ h with ingressEpochs := h.ingressEpochs.insert s.fp (wireEpoch wire) },
        some (anchoring wire src ipPacket))
  | anchoring wire src ipPacket =>
      ({ h with leases := h.leases.adoptEpoch now s.fp (wireEpoch wire) src },
        some (pruning wire src ipPacket))
  | pruning wire src ipPacket =>
      ({ h with ingress := h.ingress.retainEpoch s.fp (wireEpoch wire) },
        some (observing wire src ipPacket))
  | observing wire src ipPacket =>
      ({ h with
         leases := (h.leases.observeTunnelPacket now s.fp (wireEpoch wire) (VpnHub.headerCtr wire)
           src).2 },
        some (routing wire src ipPacket))
  | routing _ _ ipPacket =>
      ({ h with leases := VpnHub.routeInner h.leases now s.fp ipPacket }, none)

/-- A call that is run to its end before anything else happens. -/
def drive (A : TunnelCipher K) (s : TunnelSession K) (now : ℕ) :
    ℕ → VpnHub K → Option TunnelCall → VpnHub K
  | _, h, none => h
  | 0, h, some _ => h
  | fuel + 1, h, some call =>
      let (h, next) := access A s h now call
      drive A s now fuel h next

theorem drive_noting (A : TunnelCipher K) (s : TunnelSession K) (now : ℕ) {h : VpnHub K}
    {wire : Bytes} (hlen : ¬ wire.length < tunnelHdrLen + 16) (hauth : h.authorized s.fp = true)
    (src : SocketAddr) :
    drive A s now 8 h (some (noting wire src)) =
      (h.handleTunnelPayload A now s.fp s.masterKey s.sessionHash wire src).2.2 := by
  rw [VpnHub.handleTunnelPayload, if_neg hlen, hauth, Bool.not_true, if_neg Bool.false_ne_true]
  simp only [drive, access, VpnHub.noteSession]
  by_cases hstale : (h.ingressEpochs.lookup s.fp).any (wireEpoch wire < ·) = true
  · rw [if_pos hstale, if_pos hstale]
    rfl
  · rw [if_neg hstale, if_neg hstale]
    dsimp only [drive, access]
    cases hopen : h.ingress.openWire A now s.masterKey s.fp (wireEpoch wire) wire with
    | mk outcome ingress =>
        cases outcome with
        | replay => rfl
        | authFail => rfl
        | accepted ipPacket advanced =>
            dsimp only
            unfold VpnHub.onAccepted
            dsimp only
            by_cases hadopt : h.ingressEpochs.lookup s.fp ≠ some (wireEpoch wire)
            · rw [if_pos hadopt, if_pos hadopt]
              rfl
            · rw [if_neg hadopt, if_neg hadopt]
              rfl

end TunnelCall

/-- The hub, the calls under way, and the datagrams opened and routed since the last handshake or
goodbye. -/
structure Overlap (ι K : Type) where
  hub : VpnHub K
  calls : ι → Option TunnelCall
  opened : List Bytes
  routed : List Bytes

inductive OverlapAct (ι : Type) where
  | payload (t : ι) (wire : Bytes) (src : SocketAddr)
  /-- The next access of a call. -/
  | run (t : ι) (now : ℕ)
  | handshake (now : ℕ) (endpoint : SocketAddr)
  | disconnect

namespace Overlap

variable {A : TunnelCipher K} {s : TunnelSession K}

def start (allowedFingerprints : List String) : Overlap ι K where
  hub := .start allowedFingerprints
  calls _ := none
  opened := []
  routed := []

/-- The datagrams are those of one client; a thread that is in a call begins no other. -/
def step (A : TunnelCipher K) (s : TunnelSession K) (w : Overlap ι K) : OverlapAct ι → Overlap ι K
  | .payload t wire src =>
      match w.calls t with
      | some _ => w
      | none =>
          if wire.length < tunnelHdrLen + 16 ∨ w.hub.authorized s.fp = false then w
          else { w with calls := Function.update w.calls t (some (.noting wire src)) }
  | .run t now =>
      match w.calls t with
      | none => w
      | some call =>
          let (hub, next) := call.access A s w.hub now
          { hub := hub
            calls := Function.update w.calls t next
            opened :=
              match call.accepted, next.bind TunnelCall.accepted with
              | none, some wire => wire :: w.opened
              | _, _ => w.opened
            routed :=
              match call with
              | .routing wire _ _ => wire :: w.routed
              | _ => w.routed }
  | .handshake now endpoint =>
      { w with hub := w.hub.onHandshake now s.fp endpoint, opened := [], routed := [] }
  | .disconnect => { w with hub := w.hub.onDisconnect s.fp, opened := [], routed := [] }

/-- A call to which nothing comes in between, in a thread that was free, does what the hub does with
the datagram at once. -/
theorem hub_foldl_payload (A : TunnelCipher K) (s : TunnelSession K) {w : Overlap ι K} {t : ι}
    (hfree : w.calls t = none) (now : ℕ) (wire : Bytes) (src : SocketAddr) :
    ((.payload t wire src :: replicate 8 (.run t now)).foldl (step A s) w).hub =
      (w.hub.handleTunnelPayload A now s.fp s.masterKey s.sessionHash wire src).2.2 := by
  have hrun : ∀ (n : ℕ) (w : Overlap ι K),
      ((replicate n (.run t now)).foldl (step A s) w).hub =
        TunnelCall.drive A s now n w.hub (w.calls t) := by
    intro n
    induction n with
    | zero =>
        intro w
        cases w.calls t <;> rfl
    | succ n ih =>
        intro w
        rw [replicate_succ, foldl_cons, ih]
        cases hcall : w.calls t with
        | none => simp [step, hcall, TunnelCall.drive]
        | some call => simp [step, hcall, TunnelCall.drive]
  rw [foldl_cons, hrun]
  by_cases hlen : wire.length < tunnelHdrLen + 16
  · rw [VpnHub.handleTunnelPayload, if_pos hlen]
    simp [step, hfree, hlen, TunnelCall.drive]
  · by_cases hauth : w.hub.authorized s.fp = true
    · rw [← TunnelCall.drive_noting A s now hlen hauth src]
      simp [step, hfree, hlen, hauth]
    · rw [VpnHub.handleTunnelPayload, if_neg hlen, Bool.eq_false_iff.mpr hauth]
      simp [step, hfree, hauth, TunnelCall.drive]

def adopted (s : TunnelSession K) (w : Overlap ι K) : Option ℕ :=
  w.hub.ingressEpochs.lookup s.fp

/-- The step of a call does not move the adopted epoch back. -/
def EpochKept (A : TunnelCipher K) (s : TunnelSession K) (w : Overlap ι K) :
    OverlapAct ι → Prop
  | .run t now => ∀ e ∈ w.adopted s, ∃ e' ∈ (w.step A s (.run t now)).adopted s, e ≤ e'
  | _ => True

def RoutedOnce (A : TunnelCipher K) (s : TunnelSession K) (w : Overlap ι K) (act : OverlapAct ι) :
    Prop :=
  (w.step A s act).routed.Nodup

/-- What no other call may have done to the epoch of the client before this access. -/
def CallUndisturbed (s : TunnelSession K) (w : Overlap ι K) : TunnelCall → Prop
  -- a later epoch is not adopted yet, or the datagram has not been opened before
  | .opening wire _ _ => (∀ e ∈ w.adopted s, e ≤ wireEpoch wire) ∨ wire ∉ w.opened
  | .adopting wire _ _ => ∀ e ∈ w.adopted s, e ≤ wireEpoch wire
  -- the windows that are dropped are those of epochs before the adopted one
  | .pruning wire _ _ => ∀ key ∈ w.hub.ingress.rx.keys, key.1 = s.fp → key.2 ≠ wireEpoch wire →
      ∃ e ∈ w.adopted s, key.2 < e
  | _ => True

/-- No access of a call is overtaken by the adoption of a later epoch, and no call that has opened
its datagram by a handshake or goodbye. -/
def Undisturbed (s : TunnelSession K) (w : Overlap ι K) : OverlapAct ι → Prop
  | .payload .. => True
  | .run t _ => ∀ call ∈ w.calls t, w.CallUndisturbed s call
  | .handshake .. | .disconnect => ∀ t, ∀ call ∈ w.calls t, call.accepted = none

/-! ### What keeps a datagram from being opened again -/

/-- The window of its epoch has no room for the datagram, or a later epoch is adopted. -/
def Spent (s : TunnelSession K) (h : VpnHub K) (wire : Bytes) : Prop :=
  (∃ rx ∈ h.ingress.rx.lookup (s.fp, wireEpoch wire), rx.guard.Spent (wireCtr wire)) ∨
    ∃ e ∈ h.ingressEpochs.lookup s.fp, wireEpoch wire < e

/-- The call has adopted its epoch and goes on to the lease and the windows. -/
def HasAdopted (s : TunnelSession K) (h : VpnHub K) : TunnelCall → Prop
  | .anchoring wire _ _ | .pruning wire _ _ =>
      ∃ e ∈ h.ingressEpochs.lookup s.fp, wireEpoch wire ≤ e
  | _ => True

variable {now : ℕ} {wire : Bytes}

theorem spent_window_openWire {g : VpnIngress} {fp : String} {e c : ℕ} {key : K} {e' : ℕ}
    (h : ∃ rx ∈ g.rx.lookup (fp, e), rx.guard.Spent c) :
    ∃ rx ∈ (g.openWire A now key fp e' wire).2.rx.lookup (fp, e), rx.guard.Spent c := by
  obtain ⟨rx, hrx, hspent⟩ := h
  have hinsert : ∀ rx', (e = e' → rx'.guard = (rx.guard.checkAndUpdate now (wireCtr wire)).2) →
      ∃ rx'' ∈ (g.rx.insert (fp, e') rx').lookup (fp, e), rx''.guard.Spent c := by
    intro rx' hguard
    by_cases he : e = e'
    · subst he
      refine ⟨rx', AList.lookup_insert _, ?_⟩
      rw [hguard rfl]
      exact hspent.checkAndUpdate
    · refine ⟨rx, ?_, hspent⟩
      have hne : (fp, e) ≠ (fp, e') := fun heq => he (Prod.mk.inj heq).2
      rw [AList.lookup_insert_ne hne]
      exact hrx
  have hwindow : e = e' → g.window now fp e' = rx := by
    rintro rfl
    exact VpnIngress.window_of_lookup hrx now
  rcases VpnIngress.openWire_cases A g now key fp e' wire with
    hopen | ⟨-, -, hopen⟩ | ⟨ipPacket, -, -, -, hopen⟩
  · rw [hopen]
    exact ⟨rx, hrx, hspent⟩
  · rw [hopen]
    exact hinsert _ fun he => by rw [hwindow he]
  · rw [hopen]
    exact hinsert _ fun he => by rw [hwindow he]

variable {h : VpnHub K} {call : TunnelCall}

theorem adopted_access {e : ℕ} (he : h.ingressEpochs.lookup s.fp = some e)
    (hnext : ∀ wire src ipPacket, call = .adopting wire src ipPacket → e ≤ wireEpoch wire) :
    ∃ e' ∈ (call.access A s h now).1.ingressEpochs.lookup s.fp, e ≤ e' := by
  cases call with
  | adopting wire src ipPacket =>
      exact ⟨wireEpoch wire, AList.lookup_insert _, hnext wire src ipPacket rfl⟩
  | _ => exact ⟨e, he, le_rfl⟩

theorem Spent.access (hspent : Spent s h wire)
    (hadopting : ∀ w src p, call = .adopting w src p →
      ∀ e ∈ h.ingressEpochs.lookup s.fp, e ≤ wireEpoch w)
    (hpruning : ∀ w src p, call = .pruning w src p → ∀ key ∈ h.ingress.rx.keys, key.1 = s.fp →
      key.2 ≠ wireEpoch w → ∃ e ∈ h.ingressEpochs.lookup s.fp, key.2 < e) :
    Spent s (call.access A s h now).1 wire := by
  rcases hspent with hwindow | ⟨e, he, hlt⟩
  · cases call with
    | opening w src currentEpoch => exact Or.inl (spent_window_openWire hwindow)
    | pruning w src p =>
        obtain ⟨rx, hrx, hguard⟩ := hwindow
        by_cases hsame : wireEpoch wire = wireEpoch w
        · refine Or.inl ⟨rx, ?_, hguard⟩
          rw [hsame] at hrx ⊢
          exact (VpnIngress.lookup_retainEpoch_self h.ingress s.fp (wireEpoch w)).trans hrx
        · have hkey : (s.fp, wireEpoch wire) ∈ h.ingress.rx.keys :=
            AList.mem_keys.mpr (AList.lookup_isSome.mp (Option.isSome_iff_exists.mpr ⟨rx, hrx⟩))
          exact Or.inr (hpruning w src p rfl _ hkey rfl hsame)
    | _ => exact Or.inl hwindow
  · obtain ⟨e', he', hle⟩ := adopted_access he fun w src p hcall =>
      hadopting w src p hcall e he
    exact Or.inr ⟨e', he', hlt.trans_le hle⟩

theorem spent_of_opened {src : SocketAddr} {currentEpoch : Option ℕ} {next : TunnelCall}
    {wire' : Bytes}
    (hnext : ((TunnelCall.opening wire src currentEpoch).access A s h now).2 = some next)
    (haccepted : next.accepted = some wire') :
    wire' = wire ∧ Spent s ((TunnelCall.opening wire src currentEpoch).access A s h now).1 wire ∧
      ((h.ingress.window now s.fp (wireEpoch wire)).guard.checkAndUpdate now
        (wireCtr wire)).1 = true := by
  rw [TunnelCall.access] at hnext ⊢
  rcases VpnIngress.openWire_cases A h.ingress now s.masterKey s.fp (wireEpoch wire) wire with
    hopen | ⟨-, -, hopen⟩ | ⟨ipPacket, -, -, hroom, hopen⟩
  · rw [hopen] at hnext
    cases hnext
  · rw [hopen] at hnext
    cases hnext
  · rw [hopen] at hnext ⊢
    refine ⟨?_, Or.inl ⟨_, AList.lookup_insert _, spent_checkAndUpdate hroom⟩, hroom⟩
    obtain rfl := Option.some.inj hnext
    split at haccepted
    · exact (Option.some.inj haccepted).symm
    · exact (Option.some.inj haccepted).symm

theorem not_spent_window {g : VpnIngress} {fp : String} {e c : ℕ}
    (hroom : ((g.window now fp e).guard.checkAndUpdate now c).1 = true) :
    ¬ ∃ rx ∈ g.rx.lookup (fp, e), rx.guard.Spent c := by
  rintro ⟨rx, hrx, hspent⟩
  rw [VpnIngress.window_of_lookup hrx, checkAndUpdate_spent hspent] at hroom
  cases hroom

/-! ### The invariant -/

structure Inv (s : TunnelSession K) (w : Overlap ι K) : Prop where
  once : w.routed.Nodup
  opened : ∀ wire ∈ w.routed, wire ∈ w.opened
  spent : ∀ wire ∈ w.opened, Spent s w.hub wire
  waiting : ∀ t call wire, w.calls t = some call → call.accepted = some wire →
    wire ∈ w.opened ∧ wire ∉ w.routed
  apart : ∀ t t' call call' wire, w.calls t = some call → w.calls t' = some call' →
    call.accepted = some wire → call'.accepted = some wire → t = t'
  hasAdopted : ∀ t call, w.calls t = some call → HasAdopted s w.hub call

omit [DecidableEq ι] in
theorem inv_start (allowedFingerprints : List String) :
    (start allowedFingerprints : Overlap ι K).Inv s where
  once := nodup_nil
  opened wire h := absurd h not_mem_nil
  spent wire h := absurd h not_mem_nil
  waiting t call wire h := by cases h
  apart t t' call call' wire h := by cases h
  hasAdopted t call h := by cases h

omit [DecidableEq ι] in
theorem inv_of_none_accepted {w : Overlap ι K}
    (h : ∀ t, ∀ call ∈ w.calls t, call.accepted = none) (hub : VpnHub K) :
    Inv s { w with hub := hub, opened := [], routed := [] } where
  once := nodup_nil
  opened wire hwire := absurd hwire not_mem_nil
  spent wire hwire := absurd hwire not_mem_nil
  waiting t call wire hcall haccepted := by
    rw [h t call hcall] at haccepted
    cases haccepted
  apart t t' call call' wire hcall _ haccepted := by
    rw [h t call hcall] at haccepted
    cases haccepted
  hasAdopted t call hcall := by
    have hnone := h t call hcall
    cases call with
    | anchoring _ _ _ | pruning _ _ _ => cases hnone
    | _ => trivial

theorem inv_payload {w : Overlap ι K} (h : w.Inv s) (A : TunnelCipher K) (t : ι) (wire : Bytes)
    (src : SocketAddr) : (w.step A s (.payload t wire src)).Inv s := by
  unfold Overlap.step
  dsimp only
  split
  · exact h
  · split
    · exact h
    · have hcalls : ∀ t' call, Function.update w.calls t (some (.noting wire src)) t' = some call →
          call = .noting wire src ∨ w.calls t' = some call := by
        intro t' call hcall
        rw [Function.update_apply] at hcall
        split at hcall
        · exact Or.inl (Option.some.inj hcall).symm
        · exact Or.inr hcall
      refine { once := h.once, opened := h.opened, spent := h.spent, waiting := ?_, apart := ?_,
               hasAdopted := ?_ }
      · intro t' call wire' hcall haccepted
        rcases hcalls t' call hcall with rfl | hold
        · cases haccepted
        · exact h.waiting t' call wire' hold haccepted
      · intro t' t'' call call' wire' hcall hcall' haccepted haccepted'
        rcases hcalls t' call hcall with rfl | hold
        · cases haccepted
        rcases hcalls t'' call' hcall' with rfl | hold'
        · cases haccepted'
        exact h.apart t' t'' call call' wire' hold hold' haccepted haccepted'
      · intro t' call hcall
        rcases hcalls t' call hcall with rfl | hold
        · trivial
        · exact h.hasAdopted t' call hold

theorem HasAdopted.access {other : TunnelCall} (hother : HasAdopted s h other)
    (hadopting : ∀ w src p, call = .adopting w src p →
      ∀ e ∈ h.ingressEpochs.lookup s.fp, e ≤ wireEpoch w) :
    HasAdopted s (call.access A s h now).1 other := by
  have hkept : ∀ wire, (∃ e ∈ h.ingressEpochs.lookup s.fp, wireEpoch wire ≤ e) →
      ∃ e ∈ (call.access A s h now).1.ingressEpochs.lookup s.fp, wireEpoch wire ≤ e := by
    rintro wire ⟨e, he, hle⟩
    obtain ⟨e', he', hle'⟩ := adopted_access he fun w src p hcall =>
      hadopting w src p hcall e he
    exact ⟨e', he', hle.trans hle'⟩
  cases other with
  | anchoring wire src p => exact hkept wire hother
  | pruning wire src p => exact hkept wire hother
  | _ => trivial

theorem hasAdopted_next {next : TunnelCall} (hcall : HasAdopted s h call)
    (hnext : (call.access A s h now).2 = some next) :
    HasAdopted s (call.access A s h now).1 next := by
  cases call with
  | noting wire src | pruning wire src p | observing wire src p =>
      cases hnext
      trivial
  | anchoring wire src p =>
      cases hnext
      exact hcall
  | checking wire src =>
      rw [TunnelCall.access] at hnext
      split at hnext
      · cases hnext
      · cases hnext
        trivial
  | opening wire src currentEpoch =>
      rw [TunnelCall.access] at hnext
      rcases VpnIngress.openWire_cases A h.ingress now s.masterKey s.fp (wireEpoch wire) wire with
        hopen | ⟨-, -, hopen⟩ | ⟨ipPacket, -, -, -, hopen⟩
      · rw [hopen] at hnext
        cases hnext
      · rw [hopen] at hnext
        cases hnext
      · rw [hopen] at hnext
        dsimp only at hnext
        split at hnext
        · cases hnext
          trivial
        · cases hnext
          trivial
  | adopting wire src p =>
      cases hnext
      exact ⟨wireEpoch wire, AList.lookup_insert _, le_rfl⟩
  | routing wire src p => cases hnext

theorem accepted_next {next : TunnelCall} (hnext : (call.access A s h now).2 = some next)
    (haccepted : next.accepted = some wire) :
    call.accepted = some wire ∨ ∃ src currentEpoch, call = .opening wire src currentEpoch := by
  cases call with
  | noting w src =>
      cases hnext
      cases haccepted
  | checking w src =>
      rw [TunnelCall.access] at hnext
      split at hnext
      · cases hnext
      · cases hnext
        cases haccepted
  | opening w src currentEpoch =>
      obtain ⟨rfl, -, -⟩ := spent_of_opened hnext haccepted
      exact Or.inr ⟨src, currentEpoch, rfl⟩
  | adopting w src p | anchoring w src p | pruning w src p | observing w src p =>
      cases hnext
      exact Or.inl haccepted
  | routing w src p => cases hnext

omit [DecidableEq ι] in
theorem notMem_opened {w : Overlap ι K} (h : w.Inv s) {src : SocketAddr} {currentEpoch : Option ℕ}
    (hquiet : w.CallUndisturbed s (.opening wire src currentEpoch))
    (hroom : ((w.hub.ingress.window now s.fp (wireEpoch wire)).guard.checkAndUpdate now
      (wireCtr wire)).1 = true) : wire ∉ w.opened := by
  rcases hquiet with hcurrent | hnew
  · intro hopened
    rcases h.spent wire hopened with hwindow | ⟨e, he, hlt⟩
    · exact not_spent_window hroom hwindow
    · exact absurd (hcurrent e he) (not_le.mpr hlt)
  · exact hnew

section Access

variable {w : Overlap ι K} {t : ι} {hub : VpnHub K} {next : Option TunnelCall}

theorem calls_update {t' : ι} {c : TunnelCall} (h : Function.update w.calls t next t' = some c) :
    (t' = t ∧ next = some c) ∨ (t' ≠ t ∧ w.calls t' = some c) := by
  rw [Function.update_apply] at h
  split at h
  · rename_i ht
    exact Or.inl ⟨ht, h⟩
  · rename_i ht
    exact Or.inr ⟨ht, h⟩

theorem inv_opens (h : w.Inv s) (hspent : ∀ wire ∈ w.opened, Spent s hub wire)
    (hhas : ∀ t' c, Function.update w.calls t next t' = some c → HasAdopted s hub c)
    {call : TunnelCall} (hnext : next = some call) {wire : Bytes}
    (haccepted : call.accepted = some wire) (hwire : Spent s hub wire) (hnew : wire ∉ w.opened) :
    Inv s { hub := hub, calls := Function.update w.calls t next, opened := wire :: w.opened
            routed := w.routed } where
  once := h.once
  opened x hx := mem_cons_of_mem _ (h.opened x hx)
  spent x hx := by
    rcases mem_cons.mp hx with rfl | hold
    · exact hwire
    · exact hspent x hold
  waiting t' c x hc hx := by
    rcases calls_update hc with ⟨-, hc'⟩ | ⟨-, hold⟩
    · obtain rfl := Option.some.inj (hnext.symm.trans hc')
      obtain rfl := Option.some.inj (haccepted.symm.trans hx)
      exact ⟨mem_cons_self, fun hrouted => hnew (h.opened _ hrouted)⟩
    · obtain ⟨hin, hout⟩ := h.waiting t' c x hold hx
      exact ⟨mem_cons_of_mem _ hin, hout⟩
  apart t' t'' c c' x hc hc' hx hx' := by
    have hfresh : ∀ {t₁ c₁}, next = some c₁ → c₁.accepted = some x → ∀ {c₂},
        w.calls t₁ = some c₂ → c₂.accepted = some x → False := by
      intro t₁ c₁ hc₁ hx₁ c₂ hold hx₂
      obtain rfl := Option.some.inj (hnext.symm.trans hc₁)
      obtain rfl := Option.some.inj (haccepted.symm.trans hx₁)
      exact hnew (h.waiting t₁ c₂ wire hold hx₂).1
    rcases calls_update hc with ⟨ht, hnow⟩ | ⟨-, hold⟩
    · rcases calls_update hc' with ⟨ht', -⟩ | ⟨-, hold'⟩
      · exact ht.trans ht'.symm
      · exact (hfresh hnow hx hold' hx').elim
    · rcases calls_update hc' with ⟨-, hnow'⟩ | ⟨-, hold'⟩
      · exact (hfresh hnow' hx' hold hx).elim
      · exact h.apart t' t'' c c' x hold hold' hx hx'
  hasAdopted := hhas

theorem inv_moves (h : w.Inv s) (hspent : ∀ wire ∈ w.opened, Spent s hub wire)
    (hhas : ∀ t' c, Function.update w.calls t next t' = some c → HasAdopted s hub c)
    {call : TunnelCall} (hcall : w.calls t = some call)
    (hkept : ∀ c wire, next = some c → c.accepted = some wire → call.accepted = some wire) :
    Inv s { hub := hub, calls := Function.update w.calls t next, opened := w.opened
            routed := w.routed } := by
  have hold : ∀ {t' c x}, Function.update w.calls t next t' = some c → c.accepted = some x →
      ∃ c', w.calls t' = some c' ∧ c'.accepted = some x := by
    intro t' c x hc hx
    rcases calls_update hc with ⟨rfl, hnow⟩ | ⟨-, hsame⟩
    · exact ⟨call, hcall, hkept c x hnow hx⟩
    · exact ⟨c, hsame, hx⟩
  refine { once := h.once, opened := h.opened, spent := hspent, waiting := ?_, apart := ?_,
           hasAdopted := hhas }
  · intro t' c x hc hx
    obtain ⟨d, hd, hdx⟩ := hold hc hx
    exact h.waiting t' d x hd hdx
  · intro t' t'' c c' x hc hc' hx hx'
    obtain ⟨d, hd, hdx⟩ := hold hc hx
    obtain ⟨d', hd', hdx'⟩ := hold hc' hx'
    exact h.apart t' t'' d d' x hd hd' hdx hdx'

theorem inv_routes (h : w.Inv s) (hspent : ∀ wire ∈ w.opened, Spent s hub wire)
    (hhas : ∀ t' c, Function.update w.calls t none t' = some c → HasAdopted s hub c)
    {wire : Bytes} {src : SocketAddr} {ipPacket : Bytes}
    (hcall : w.calls t = some (.routing wire src ipPacket)) :
    Inv s { hub := hub, calls := Function.update w.calls t none, opened := w.opened
            routed := wire :: w.routed } := by
  obtain ⟨hin, hout⟩ := h.waiting t _ wire hcall rfl
  have hold : ∀ {t' c}, Function.update w.calls t none t' = some c →
      t' ≠ t ∧ w.calls t' = some c := by
    intro t' c hc
    rcases calls_update hc with ⟨-, hnow⟩ | hsame
    · cases hnow
    · exact hsame
  refine { once := nodup_cons.mpr ⟨hout, h.once⟩, opened := ?_, spent := hspent,
           waiting := ?_, apart := ?_, hasAdopted := hhas }
  · intro x hx
    rcases mem_cons.mp hx with rfl | hrouted
    · exact hin
    · exact h.opened x hrouted
  · intro t' c x hc hx
    obtain ⟨hne, hsame⟩ := hold hc
    obtain ⟨hxin, hxout⟩ := h.waiting t' c x hsame hx
    refine ⟨hxin, fun hrouted => ?_⟩
    rcases mem_cons.mp hrouted with rfl | hrouted
    · exact hne (h.apart t' t c _ x hsame hcall hx rfl)
    · exact hxout hrouted
  · intro t' t'' c c' x hc hc' hx hx'
    exact h.apart t' t'' c c' x (hold hc).2 (hold hc').2 hx hx'

end Access

theorem inv_run {w : Overlap ι K} (h : w.Inv s) {t : ι} (hquiet : w.Undisturbed s (.run t now)) :
    (w.step A s (.run t now)).Inv s := by
  cases hcall : w.calls t with
  | none =>
      rw [Overlap.step, hcall]
      exact h
  | some call =>
      have hundisturbed := hquiet call hcall
      have hadopting : ∀ wire src p, call = .adopting wire src p →
          ∀ e ∈ w.hub.ingressEpochs.lookup s.fp, e ≤ wireEpoch wire := by
        rintro _ _ _ rfl
        exact hundisturbed
      have hspent : ∀ wire ∈ w.opened, Spent s (call.access A s w.hub now).1 wire := by
        intro wire hwire
        refine (h.spent wire hwire).access hadopting ?_
        rintro _ _ _ rfl
        exact hundisturbed
      have hhas : ∀ t' c, Function.update w.calls t (call.access A s w.hub now).2 t' = some c →
          HasAdopted s (call.access A s w.hub now).1 c := by
        intro t' c hc
        rcases calls_update hc with ⟨-, hnext⟩ | ⟨-, hold⟩
        · exact hasAdopted_next (h.hasAdopted t call hcall) hnext
        · exact (h.hasAdopted t' c hold).access hadopting
      rw [Overlap.step, hcall]
      dsimp only
      by_cases hopening : ∃ wire src currentEpoch next, call = .opening wire src currentEpoch ∧
          (call.access A s w.hub now).2 = some next ∧ next.accepted = some wire
      · obtain ⟨wire, src, currentEpoch, next, rfl, hnext, haccepted⟩ := hopening
        obtain ⟨-, hwire, hroom⟩ := spent_of_opened hnext haccepted
        have hnew := notMem_opened h hundisturbed hroom
        have hlist : ((TunnelCall.opening wire src currentEpoch).access A s w.hub now).2.bind
            TunnelCall.accepted = some wire := by
          rw [hnext, Option.bind_some, haccepted]
        rw [hlist]
        exact inv_opens h hspent hhas hnext haccepted hwire hnew
      · have hkept : ∀ c x, (call.access A s w.hub now).2 = some c → c.accepted = some x →
            call.accepted = some x := by
          intro c x hc hx
          rcases accepted_next hc hx with hsame | ⟨src, currentEpoch, rfl⟩
          · exact hsame
          · exact absurd ⟨x, src, currentEpoch, c, rfl, hc, hx⟩ hopening
        have hlist : (match call.accepted,
              (call.access A s w.hub now).2.bind TunnelCall.accepted with
            | none, some wire => wire :: w.opened
            | _, _ => w.opened) = w.opened := by
          split
          · rename_i x hnone hsome
            obtain ⟨c, hc, hx⟩ := Option.bind_eq_some_iff.mp hsome
            rw [hkept c x hc hx] at hnone
            cases hnone
          · rfl
        rw [hlist]
        cases call with
        | routing wire src p => exact inv_routes h hspent hhas hcall
        | _ => exact inv_moves h hspent hhas hcall hkept

theorem Inv.step {w : Overlap ι K} (h : w.Inv s) {act : OverlapAct ι}
    (hquiet : w.Undisturbed s act) : (w.step A s act).Inv s := by
  cases act with
  | payload t wire src => exact inv_payload h A t wire src
  | run t now => exact inv_run h hquiet
  | handshake now endpoint => exact inv_of_none_accepted hquiet _
  | disconnect => exact inv_of_none_accepted hquiet _

theorem epochKept_of_undisturbed {w : Overlap ι K} {act : OverlapAct ι}
    (hquiet : w.Undisturbed s act) : w.EpochKept A s act := by
  cases act with
  | run t now =>
      intro e he
      rw [adopted, Overlap.step]
      cases hcall : w.calls t with
      | none => exact ⟨e, he, le_rfl⟩
      | some call =>
          refine adopted_access he ?_
          rintro wire src p rfl
          exact hquiet _ hcall e he
  | _ => trivial

/-- In every interleaving of calls none of which is overtaken by the adoption of a later epoch, or
by a handshake or goodbye, the adopted epoch never goes back and no datagram is routed twice. -/
theorem overlapping_calls_sound (A : TunnelCipher K) (s : TunnelSession K)
    (allowedFingerprints : List String) (acts : List (OverlapAct ι))
    (h : Always (step A s) (Undisturbed s) (start allowedFingerprints) acts) :
    Always (step A s) (fun w act => w.EpochKept A s act ∧ w.RoutedOnce A s act)
      (start allowedFingerprints) acts :=
  Always.of_invariant (Inv s) (fun _ _ hinv hquiet => hinv.step hquiet)
    (fun _ _ hinv hquiet => ⟨epochKept_of_undisturbed hquiet, (hinv.step hquiet).once⟩)
    (inv_start allowedFingerprints) h

/-! ### Two runs -/

instance (s : TunnelSession K) (w : Overlap ι K) (call : TunnelCall) :
    Decidable (w.CallUndisturbed s call) :=
  match call with
  | .opening .. => inferInstanceAs (Decidable (_ ∨ _))
  | .adopting .. => inferInstanceAs (Decidable (∀ e ∈ w.adopted s, _))
  | .pruning wire _ _ => inferInstanceAs (Decidable (∀ key ∈ w.hub.ingress.rx.keys, key.1 = s.fp →
      key.2 ≠ wireEpoch wire → ∃ e ∈ w.adopted s, key.2 < e))
  | .noting .. | .checking .. | .anchoring .. | .observing .. | .routing .. =>
      inferInstanceAs (Decidable True)

instance [Fintype ι] (s : TunnelSession K) (w : Overlap ι K) (act : OverlapAct ι) :
    Decidable (w.Undisturbed s act) :=
  match act with
  | .payload .. => inferInstanceAs (Decidable True)
  | .run t _ => inferInstanceAs (Decidable (∀ call ∈ w.calls t, w.CallUndisturbed s call))
  | .handshake .. | .disconnect =>
      inferInstanceAs (Decidable (∀ t, ∀ call ∈ w.calls t, call.accepted = none))

instance (A : TunnelCipher K) (s : TunnelSession K) (w : Overlap ι K) (act : OverlapAct ι) :
    Decidable (w.EpochKept A s act) :=
  match act with
  | .run t now => inferInstanceAs (Decidable (∀ e ∈ w.adopted s,
      ∃ e' ∈ (w.step A s (.run t now)).adopted s, e ≤ e'))
  | .payload .. | .handshake .. | .disconnect => inferInstanceAs (Decidable True)

instance (A : TunnelCipher K) (s : TunnelSession K) (w : Overlap ι K) (act : OverlapAct ι) :
    Decidable (w.RoutedOnce A s act) :=
  inferInstanceAs (Decidable (Nodup _))

def phoneSession : TunnelSession UInt8 where
  fp := "phone"
  masterKey := 7
  sessionHash := List.Vector.replicate 4 0

def phoneAddr : SocketAddr := { ip := .v4 ⟨[198, 51, 100, 10], by decide⟩, port := 40000 }

def phoneWire (epoch ctr : ℕ) : Bytes :=
  sealDatagram .labelled 7 epoch ctr (List.Vector.replicate 8 0) []

theorem phone_alone :
    let w : Overlap (Fin 1) UInt8 := start ["phone"]
    ((.payload 0 (phoneWire 1 1) phoneAddr :: replicate 8 (.run 0 1)).foldl
        (step .labelled phoneSession) w).hub =
      (w.hub.handleTunnelPayload .labelled 1 "phone" 7 (List.Vector.replicate 4 0) (phoneWire 1 1)
        phoneAddr).2.2 :=
  hub_foldl_payload .labelled phoneSession rfl 1 (phoneWire 1 1) phoneAddr

/-- Two datagrams of one epoch, taken in at the same time. -/
def sideBySide : List (OverlapAct (Fin 3)) :=
  [.payload 0 (phoneWire 1 1) phoneAddr, .payload 1 (phoneWire 1 2) phoneAddr] ++
    (replicate 8 [.run 0 1, .run 1 1]).flatten

theorem sideBySide_sound :
    Always (step .labelled phoneSession)
        (fun w act => w.EpochKept .labelled phoneSession act ∧
          w.RoutedOnce .labelled phoneSession act) (start ["phone"]) sideBySide ∧
      (sideBySide.foldl (step .labelled phoneSession) (start ["phone"])).routed =
        [phoneWire 1 2, phoneWire 1 1] := by
  obtain ⟨hrun, hrouted⟩ := Always.of_exec_any (step .labelled phoneSession)
    (Undisturbed phoneSession) (start ["phone"]) sideBySide
    (fun w => w.routed = [phoneWire 1 2, phoneWire 1 1]) (by decide +kernel)
  exact ⟨overlapping_calls_sound .labelled phoneSession ["phone"] sideBySide hrun,
    of_decide_eq_true hrouted⟩

/-- A datagram of epoch 1 and a copy of it pass the check; then one of epoch 2 is taken in, and then
the two calls go on. -/
def overtaken : List (OverlapAct (Fin 3)) :=
  [.payload 0 (phoneWire 1 1) phoneAddr, .payload 1 (phoneWire 1 1) phoneAddr,
    .run 0 1, .run 0 1, .run 1 1, .run 1 1, .run 0 1, .payload 2 (phoneWire 2 1) phoneAddr] ++
    replicate 8 (.run 2 1) ++ replicate 5 (.run 0 1) ++ replicate 6 (.run 1 1)

/-- The adopted epoch goes back from 2 to 1, and the datagram is routed twice. -/
theorem overtaken_calls_route_twice :
    let w (n : ℕ) := (overtaken.take n).foldl (step .labelled phoneSession) (start ["phone"])
    (w 16).adopted phoneSession = some 2 ∧ (w 17).adopted phoneSession = some 1 ∧
      (w 27).routed = [phoneWire 1 1, phoneWire 1 1, phoneWire 2 1] ∧
      ¬ Always (step .labelled phoneSession)
        (fun w act => w.EpochKept .labelled phoneSession act ∧
          w.RoutedOnce .labelled phoneSession act) (start ["phone"]) overtaken := by
  decide +kernel

end Overlap

end Vantablack.Vpn
