import Vantablack.Lib.Table
import Vantablack.Layers.Kem

/-!
The node of the mesh of `abos-protocol/src/mesh.rs`: what it makes of a beacon and of a bundle, and
what `ABOSSystem` sends on. The clock is an input of each operation that reads it.
-/

namespace Vantablack.Abos

open Lib Layers

abbrev BundleId := Octets 32

def defaultBeaconIntervalSecs : ℕ := 30

def defaultPeerExpirySecs : ℕ := 120

structure Beacon (ι : Type*) where
  origin : ι
  hopCount : ℕ
  ttl : ℕ
  timestamp : ℕ
  nodeAlias : String
  deriving DecidableEq

def Beacon.new {ι : Type*} (origin : ι) (nodeAlias : String) (now : ℕ) : Beacon ι where
  origin := origin
  hopCount := 0
  ttl := 3
  timestamp := now
  nodeAlias := nodeAlias

def Beacon.shouldForward {ι : Type*} (b : Beacon ι) : Bool := b.hopCount < b.ttl

structure Bundle (ι : Type*) where
  bundleId : BundleId
  sourceNode : ι
  creationTimestamp : ℕ
  lifetimeSeconds : ℕ
  payload : Bytes
  hopCount : ℕ
  ttl : ℕ
  deriving DecidableEq

def shouldForward (hopCount ttl : ℕ) : Bool := hopCount < ttl

def Bundle.incrementHop {ι : Type*} (b : Bundle ι) : Bundle ι := { b with hopCount := b.hopCount + 1 }

structure Peer (ι : Type*) where
  nodeId : ι
  nodeAlias : String
  lastSeen : ℕ
  beaconCount : ℕ
  lastBeaconTs : ℕ

structure MeshNode (ι : Type*) where
  localId : ι
  peers : Table ι (Peer ι)
  peerExpirySecs : ℕ
  beaconIntervalSecs : ℕ
  lastBeaconAt : ℕ
  originBundles : Table BundleId ℕ
  forwarded : Finset BundleId

variable {ι : Type*} [DecidableEq ι]

namespace MeshNode

def new (localId : ι) : MeshNode ι where
  localId := localId
  peers := ∅
  peerExpirySecs := defaultPeerExpirySecs
  beaconIntervalSecs := defaultBeaconIntervalSecs
  lastBeaconAt := 0
  originBundles := ∅
  forwarded := ∅

/-- The entry of a peer that was not known. -/
def unheardPeer (beacon : Beacon ι) : Peer ι where
  nodeId := beacon.origin
  nodeAlias := beacon.nodeAlias
  lastSeen := beacon.timestamp
  beaconCount := 0
  lastBeaconTs := 0

def onBeacon (m : MeshNode ι) (now : ℕ) (beacon : Beacon ι) : Bool × MeshNode ι :=
  if beacon.origin = m.localId then (false, m)
  else
    let entry := (m.peers.lookup beacon.origin).getD (unheardPeer beacon)
    let entry := { entry with lastSeen := now }
    let entry :=
      if entry.lastBeaconTs < beacon.timestamp then
        { entry with
          lastBeaconTs := beacon.timestamp
          nodeAlias := beacon.nodeAlias
          beaconCount := entry.beaconCount + 1 }
      else entry
    (beacon.shouldForward, { m with peers := m.peers.insert beacon.origin entry })

def emitBeacon (m : MeshNode ι) (now : ℕ) (nodeAlias : String) : Beacon ι × MeshNode ι :=
  (Beacon.new m.localId nodeAlias now, { m with lastBeaconAt := now })

def beaconDue (m : MeshNode ι) (now : ℕ) : Bool := m.beaconIntervalSecs ≤ now - m.lastBeaconAt

def expirePeersAt (m : MeshNode ι) (now : ℕ) : MeshNode ι :=
  { m with peers := m.peers.retain fun _ p => now - p.lastSeen ≤ m.peerExpirySecs }

def trackBundleAt (m : MeshNode ι) (bundle : Bundle ι) (now : ℕ) : MeshNode ι :=
  if bundle.bundleId ∈ m.originBundles then m
  else { m with originBundles := m.originBundles.insert bundle.bundleId now }

def shouldForwardBundle (m : MeshNode ι) (bundle : Bundle ι) : Bool × MeshNode ι :=
  if bundle.sourceNode = m.localId then (false, m)
  else if bundle.bundleId ∈ m.originBundles then (false, m)
  else if ¬ shouldForward bundle.hopCount bundle.ttl then (false, m)
  else
    (bundle.bundleId ∉ m.forwarded, { m with forwarded := insert bundle.bundleId m.forwarded })

end MeshNode

namespace ABOSSystem

def maybeEmitBeacon (mesh : MeshNode ι) (now : ℕ) (nodeAlias : String) : Option (Beacon ι × MeshNode ι) :=
  if mesh.beaconDue now then some (mesh.emitBeacon now nodeAlias) else none

/-- The beacon that is flooded again is the one that came in. -/
def onBeacon (mesh : MeshNode ι) (now : ℕ) (beacon : Beacon ι) : Option (Beacon ι) × MeshNode ι :=
  let (forward, mesh) := mesh.onBeacon now beacon
  (if forward then some beacon else none, mesh)

/-- The end of `receive`: a bundle that goes on has one hop more, and is tracked. -/
def onBundle (mesh : MeshNode ι) (now : ℕ) (bundle : Bundle ι) : Option (Bundle ι) × MeshNode ι :=
  let (forward, mesh) := mesh.shouldForwardBundle bundle
  if forward then
    let fwd := bundle.incrementHop
    (some fwd, mesh.trackBundleAt fwd now)
  else (none, mesh)

end ABOSSystem

/-! ### What a node does -/

namespace MeshNode

/-- The node is as it was, but for its peers. -/
structure SameMesh (m m' : MeshNode ι) : Prop where
  localId : m'.localId = m.localId
  interval : m'.beaconIntervalSecs = m.beaconIntervalSecs
  lastBeaconAt : m'.lastBeaconAt = m.lastBeaconAt
  originBundles : m'.originBundles = m.originBundles
  forwarded : m'.forwarded = m.forwarded

/-- The bundle goes on: the node sees it for the first time, and it has hops left. -/
structure Forwards (m : MeshNode ι) (b : Bundle ι) : Prop where
  source : b.sourceNode ≠ m.localId
  origin : b.bundleId ∉ m.originBundles
  hops : b.hopCount < b.ttl
  first : b.bundleId ∉ m.forwarded

omit [DecidableEq ι] in
theorem mem_originBundles_trackBundleAt (m : MeshNode ι) (b : Bundle ι) (now : ℕ) {id : BundleId} :
    id ∈ (m.trackBundleAt b now).originBundles ↔ id = b.bundleId ∨ id ∈ m.originBundles := by
  unfold trackBundleAt
  by_cases hmem : b.bundleId ∈ m.originBundles
  · rw [if_pos hmem]
    refine ⟨Or.inr, ?_⟩
    rintro (rfl | h)
    · exact hmem
    · exact h
  · rw [if_neg hmem]
    exact AList.mem_insert _

omit [DecidableEq ι] in
theorem trackBundleAt_frame (m : MeshNode ι) (b : Bundle ι) (now : ℕ) :
    (m.trackBundleAt b now).localId = m.localId ∧
      (m.trackBundleAt b now).beaconIntervalSecs = m.beaconIntervalSecs ∧
      (m.trackBundleAt b now).lastBeaconAt = m.lastBeaconAt ∧
      (m.trackBundleAt b now).forwarded = m.forwarded := by
  unfold trackBundleAt
  split
  · exact ⟨rfl, rfl, rfl, rfl⟩
  · exact ⟨rfl, rfl, rfl, rfl⟩

end MeshNode

namespace ABOSSystem

open MeshNode

theorem onBeacon_fst (m : MeshNode ι) (now : ℕ) (b : Beacon ι) :
    (onBeacon m now b).1 = if b.origin ≠ m.localId ∧ b.hopCount < b.ttl then some b else none := by
  unfold onBeacon MeshNode.onBeacon Beacon.shouldForward
  by_cases horigin : b.origin = m.localId
  · simp [horigin]
  · simp [horigin]

theorem sameMesh_onBeacon (m : MeshNode ι) (now : ℕ) (b : Beacon ι) :
    SameMesh m (onBeacon m now b).2 := by
  unfold onBeacon MeshNode.onBeacon
  by_cases horigin : b.origin = m.localId
  · rw [if_pos horigin]
    exact ⟨rfl, rfl, rfl, rfl, rfl⟩
  · rw [if_neg horigin]
    exact ⟨rfl, rfl, rfl, rfl, rfl⟩

omit [DecidableEq ι] in
theorem maybeEmitBeacon_eq_some {m m' : MeshNode ι} {now : ℕ} {nodeAlias : String} {b : Beacon ι} :
    maybeEmitBeacon m now nodeAlias = some (b, m') ↔
      m.beaconIntervalSecs ≤ now - m.lastBeaconAt ∧ b = Beacon.new m.localId nodeAlias now ∧
        m' = { m with lastBeaconAt := now } := by
  unfold maybeEmitBeacon beaconDue emitBeacon
  by_cases hdue : m.beaconIntervalSecs ≤ now - m.lastBeaconAt
  · simp [hdue, eq_comm]
  · simp [hdue]

theorem onBundle_of_forwards {m : MeshNode ι} {b : Bundle ι} (h : Forwards m b) (now : ℕ) :
    onBundle m now b = (some b.incrementHop,
      { m with forwarded := insert b.bundleId m.forwarded }.trackBundleAt b.incrementHop now) := by
  have hhops : shouldForward b.hopCount b.ttl = true := decide_eq_true h.hops
  unfold onBundle shouldForwardBundle
  rw [if_neg h.source, if_neg h.origin, if_neg (not_not.mpr hhops)]
  dsimp only
  rw [if_pos (decide_eq_true h.first)]

theorem onBundle_of_not_forwards {m : MeshNode ι} {b : Bundle ι} (h : ¬ Forwards m b) (now : ℕ) :
    onBundle m now b = (none, m) := by
  unfold onBundle shouldForwardBundle
  by_cases hsource : b.sourceNode = m.localId
  · rw [if_pos hsource]
    rfl
  by_cases horigin : b.bundleId ∈ m.originBundles
  · rw [if_neg hsource, if_pos horigin]
    rfl
  by_cases hhops : shouldForward b.hopCount b.ttl = true
  · have hseen : b.bundleId ∈ m.forwarded := by
      by_contra hfirst
      exact h ⟨hsource, horigin, of_decide_eq_true hhops, hfirst⟩
    rw [if_neg hsource, if_neg horigin, if_neg (not_not.mpr hhops), Finset.insert_eq_self.mpr hseen]
    simp [hseen]
  · rw [if_neg hsource, if_neg horigin, if_pos hhops]
    rfl

end ABOSSystem

end Vantablack.Abos
