import Vantablack.Receive.Spool

/-!
The leases of a VPN hub, `LeaseTable` of `net/vpn/mod.rs`: the overlay address of each client, its
epoch, and the endpoint its return traffic goes to. Instants are natural numbers of seconds.
-/

namespace Vantablack.Vpn

open Lib Layers Receive

def silenceReanchor : ℕ := 15

def defaultEpochTtl : ℕ := 15 + 60

def overlayFirstClientHost : ℕ := 10

def overlayLastClientHost : ℕ := 254

/-- An address of the overlay, `10.66.0.host`. -/
def overlayIp (host : ℕ) : Octets 4 :=
  ⟨[10, 66, 0, UInt8.ofNat host], rfl⟩

def lastOctet (ip : Octets 4) : ℕ :=
  (ip.get 3).toNat

def unspecified : SocketAddr :=
  { ip := .v4 ⟨[0, 0, 0, 0], rfl⟩, port := 0 }

structure Lease where
  fingerprint : String
  overlayIp : Octets 4
  endpoint : SocketAddr
  epoch : ℕ
  lastSeen : ℕ
  tunnelVMax : ℕ
  epochTtl : ℕ

inductive AnchorEvent where
  | handshakeRotation
  | windowAdvance
  | silenceFallback
  | noChange
  deriving DecidableEq

structure LeaseTable where
  byFp : Table String Lease
  byIp : Table (Octets 4) String
  nextHost : ℕ

namespace LeaseTable

def new : LeaseTable :=
  { byFp := ∅, byIp := ∅, nextHost := overlayFirstClientHost }

def freshLease (fingerprint : String) (ip : Octets 4) (now : ℕ) : Lease :=
  { fingerprint := fingerprint, overlayIp := ip, endpoint := unspecified, epoch := 0
    lastSeen := now, tunnelVMax := 0, epochTtl := now + defaultEpochTtl }

/-- The loop of `lease_for`: the first free host from `host` on, in `fuel` turns. -/
def findHost (used : List ℕ) : ℕ → ℕ → Option ℕ
  | 0, _ => none
  | fuel + 1, host =>
      let host := if overlayLastClientHost < host then overlayFirstClientHost else host
      if host ∈ used then findHost used fuel (host + 1) else some host

def leaseFor (t : LeaseTable) (now : ℕ) (fingerprint : String) : Option (Octets 4) × LeaseTable :=
  match t.byFp.lookup fingerprint with
  | some l => (some l.overlayIp, t)
  | none =>
      let used := t.byFp.entries.map fun e => lastOctet e.2.overlayIp
      match findHost used (overlayLastClientHost - overlayFirstClientHost + 1) t.nextHost with
      | none => (none, t)
      | some host =>
          (some (overlayIp host),
            { byFp := t.byFp.insert fingerprint (freshLease fingerprint (overlayIp host) now)
              byIp := t.byIp.insert (overlayIp host) fingerprint
              nextHost := host + 1 })

def isValidOverlay (ip : Octets 4) : Bool :=
  ip.toList.take 3 = [10, 66, 0] && overlayFirstClientHost ≤ lastOctet ip &&
    lastOctet ip ≤ overlayLastClientHost

/-- `lease_for_hint` with a hint: the table only. -/
def leaseForHint (t : LeaseTable) (now : ℕ) (fingerprint : String) (h : Octets 4) : LeaseTable :=
  let claimedByOther := t.byFp.entries.any fun e =>
    e.2.overlayIp = h && e.2.fingerprint ≠ fingerprint
  if !isValidOverlay h || claimedByOther then (t.leaseFor now fingerprint).2
  else
    match t.byFp.lookup fingerprint with
    | some l =>
        if l.overlayIp = h then t
        else
          { t with
            byFp := t.byFp.insert fingerprint { l with overlayIp := h }
            byIp := (t.byIp.erase l.overlayIp).insert h fingerprint }
    | none =>
        { byFp := t.byFp.insert fingerprint (freshLease fingerprint h now)
          byIp := t.byIp.insert h fingerprint
          nextHost :=
            if overlayFirstClientHost < lastOctet h + 1 then max t.nextHost (lastOctet h + 1)
            else t.nextHost }

/-- Change the lease of a client, if there is one. -/
def modify (t : LeaseTable) (fingerprint : String) (f : Lease → Lease) : LeaseTable :=
  match t.byFp.lookup fingerprint with
  | none => t
  | some l => { t with byFp := t.byFp.insert fingerprint (f l) }

def rotateEpoch (t : LeaseTable) (now : ℕ) (fingerprint : String) (endpoint : SocketAddr) :
    LeaseTable :=
  t.modify fingerprint fun l =>
    { l with
      epoch := (l.epoch + 1) % 2 ^ 32
      tunnelVMax := 0
      endpoint := endpoint
      lastSeen := now
      epochTtl := now + defaultEpochTtl }

def adoptEpoch (t : LeaseTable) (now : ℕ) (fingerprint : String) (epoch : ℕ)
    (endpoint : SocketAddr) : LeaseTable :=
  t.modify fingerprint fun l =>
    { l with
      epoch := epoch
      tunnelVMax := 0
      endpoint := endpoint
      lastSeen := now
      epochTtl := now + defaultEpochTtl }

/-- The re-anchor ladder on one lease: whether the packet is acceptable, and the event. -/
def observe (l : Lease) (now epoch ctr : ℕ) (src : SocketAddr) : (Bool × AnchorEvent) × Lease :=
  if l.epoch ≠ epoch then ((false, .noChange), l)
  else if l.epochTtl ≤ now then ((false, .noChange), { l with tunnelVMax := 2 ^ 32 - 1 })
  else
    let advanced := decide (l.tunnelVMax < ctr)
    let l := if advanced then { l with tunnelVMax := ctr } else l
    if l.endpoint ≠ src then
      if advanced then ((true, .windowAdvance), { l with endpoint := src, lastSeen := now })
      else if silenceReanchor ≤ now - l.lastSeen then
        ((true, .silenceFallback), { l with endpoint := src, lastSeen := now })
      else ((true, .noChange), l)
    else
      ((true, if advanced then .windowAdvance else .noChange), { l with lastSeen := now })

def observeTunnelPacket (t : LeaseTable) (now : ℕ) (fingerprint : String) (epoch ctr : ℕ)
    (src : SocketAddr) : (Bool × AnchorEvent) × LeaseTable :=
  match t.byFp.lookup fingerprint with
  | none => ((false, .noChange), t)
  | some l =>
      let (report, l) := observe l now epoch ctr src
      (report, { t with byFp := t.byFp.insert fingerprint l })

def evict (t : LeaseTable) (fingerprint : String) : LeaseTable :=
  match t.byFp.lookup fingerprint with
  | none => t
  | some l => { t with byFp := t.byFp.erase fingerprint, byIp := t.byIp.erase l.overlayIp }

/-! ### The lease of another client -/

variable {t : LeaseTable} {fp fp' : String} {now : ℕ}

theorem lookup_leaseFor_of_ne (h : fp' ≠ fp) :
    (t.leaseFor now fp).2.byFp.lookup fp' = t.byFp.lookup fp' := by
  unfold leaseFor
  split
  · rfl
  · dsimp only
    split
    · rfl
    · exact AList.lookup_insert_ne h

theorem lookup_leaseForHint_of_ne (h : fp' ≠ fp) (hint : Octets 4) :
    (t.leaseForHint now fp hint).byFp.lookup fp' = t.byFp.lookup fp' := by
  unfold leaseForHint
  dsimp only
  split
  · exact lookup_leaseFor_of_ne h
  · split
    · split
      · rfl
      · exact AList.lookup_insert_ne h
    · exact AList.lookup_insert_ne h

theorem lookup_modify_of_ne (h : fp' ≠ fp) (f : Lease → Lease) :
    (t.modify fp f).byFp.lookup fp' = t.byFp.lookup fp' := by
  unfold modify
  split
  · rfl
  · exact AList.lookup_insert_ne h

theorem lookup_observeTunnelPacket_of_ne (h : fp' ≠ fp) (epoch ctr : ℕ) (src : SocketAddr) :
    (t.observeTunnelPacket now fp epoch ctr src).2.byFp.lookup fp' = t.byFp.lookup fp' := by
  unfold observeTunnelPacket
  split
  · rfl
  · exact AList.lookup_insert_ne h

theorem lookup_evict_of_ne (h : fp' ≠ fp) : (t.evict fp).byFp.lookup fp' = t.byFp.lookup fp' := by
  unfold evict
  split
  · rfl
  · exact AList.lookup_erase_ne h

theorem lookup_modify {l : Lease} (h : t.byFp.lookup fp = some l) (f : Lease → Lease) :
    (t.modify fp f).byFp.lookup fp = some (f l) := by
  rw [modify, h]
  exact AList.lookup_insert _

theorem lookup_observeTunnelPacket {l : Lease} (h : t.byFp.lookup fp = some l) (now epoch ctr : ℕ)
    (src : SocketAddr) :
    (t.observeTunnelPacket now fp epoch ctr src).1 = (observe l now epoch ctr src).1 ∧
      (t.observeTunnelPacket now fp epoch ctr src).2.byFp.lookup fp =
        some (observe l now epoch ctr src).2 := by
  rw [observeTunnelPacket, h]
  exact ⟨rfl, AList.lookup_insert _⟩

theorem lookup_leaseForHint {l : Lease} (h : t.byFp.lookup fp = some l) (hint : Octets 4) :
    ∃ ip, (t.leaseForHint now fp hint).byFp.lookup fp = some { l with overlayIp := ip } := by
  unfold leaseForHint
  dsimp only
  split
  · refine ⟨l.overlayIp, ?_⟩
    rw [leaseFor, h]
    exact h
  · rw [h]
    dsimp only
    split
    · exact ⟨l.overlayIp, h⟩
    · exact ⟨_, AList.lookup_insert _⟩

end LeaseTable

end Vantablack.Vpn
