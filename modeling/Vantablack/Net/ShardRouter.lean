import Mathlib.Data.List.Sort
import Mathlib.Data.Finset.Card
import Mathlib.Data.Rat.Defs
import Mathlib.Algebra.Order.Ring.Unbundled.Rat
import Vantablack.Receive.Spool

/-!
How the three shards of a message are spread over the peers: `AdaptiveShardRouter` of
`net/mesh.rs` and `send3_adaptive` of `main.rs`, where the destination has a direct address and
neither a fallback route nor a carrier link. A shard that is sent to another peer is lost to the
destination: that peer has no session for it and does not send it on.

Fitness and times are floating-point numbers in the source and never compare as NaN; here they are
of any linear order. What the contact plan finds for a peer is a parameter.
-/

namespace Vantablack.Net

open Lib Receive List

variable {F T : Type*}

/-! ### The router -/

structure Journey (T : Type*) where
  arrivalTime : T
  transitNodes : List String

/-- What the contact plan says at the time of the send, seen from this node. -/
structure PlanView (T : Type*) where
  isEmpty : Bool
  findEarliestArrival : String → Option (Journey T)

structure AdaptiveShardRouter (F : Type*) where
  pathFitness : String → F
  minFitness : F

/-- `data_shards` of every router. -/
def dataShards : ℕ := 2

def shardTargetCount : ℕ := dataShards + 1

structure Target (F : Type*) where
  fp : String
  addr : SocketAddr
  fitness : F

/-- A target with its route. -/
structure Candidate (F T : Type*) where
  target : Target F
  journey : Journey T

namespace AdaptiveShardRouter

variable [LinearOrder F] (router : AdaptiveShardRouter F)

def target (peer : String × SocketAddr) : Target F where
  fp := peer.1
  addr := peer.2
  fitness := router.pathFitness peer.1

/-- The peers that are fit enough, the fittest first. -/
def selectShardTargets (available : List (String × SocketAddr)) : List (Target F) :=
  ((available.map router.target).filter fun t => router.minFitness ≤ t.fitness).insertionSort
    fun a b => b.fitness ≤ a.fitness

end AdaptiveShardRouter

/-- The greedy pass over the candidates: those whose transit nodes were not used before, and the
others. -/
def acceptDisjoint (usedTransit : List String) :
    List (Candidate F T) → List (Candidate F T) × List (Candidate F T)
  | [] => ([], [])
  | candidate :: rest =>
      if candidate.journey.transitNodes.any (· ∈ usedTransit) then
        let (routed, deferred) := acceptDisjoint usedTransit rest
        (routed, candidate :: deferred)
      else
        let (routed, deferred) :=
          acceptDisjoint (usedTransit ++ candidate.journey.transitNodes) rest
        (candidate :: routed, deferred)

def byArrival [LinearOrder T] (candidates : List (Candidate F T)) : List (Candidate F T) :=
  candidates.insertionSort fun a b => a.journey.arrivalTime ≤ b.journey.arrivalTime

/-- The fitter first, then the smaller fingerprint. -/
def Target.before [LinearOrder F] (a b : Target F) : Prop :=
  b.fitness < a.fitness ∨ (b.fitness = a.fitness ∧ a.fp ≤ b.fp)
  deriving Decidable

namespace AdaptiveShardRouter

variable [LinearOrder F] [LinearOrder T] (router : AdaptiveShardRouter F)

/-- The peers with a route, in the order they are taken. -/
def routedTargets (plan : PlanView T) (available : List (String × SocketAddr)) :
    List (Target F) :=
  let candidates := available.filterMap fun peer =>
    (plan.findEarliestArrival peer.1).map fun journey =>
      { target := router.target peer, journey := journey : Candidate F T }
  let (routed, deferred) := acceptDisjoint [] (byArrival candidates)
  (routed ++ byArrival deferred).map Candidate.target

def selectShardTargetsRouted (me : String) (available : List (String × SocketAddr))
    (plan : PlanView T) (want : ℕ) : List (Target F) :=
  let others := available.filter fun peer => peer.1 ≠ me
  let out := router.routedTargets plan others
  let unrouted := ((others.filter fun peer => out.all fun selected => selected.fp ≠ peer.1).map
    router.target).insertionSort Target.before
  (out ++ unrouted).take (max want 1)

end AdaptiveShardRouter

structure ShardRoute (F : Type*) where
  peerFingerprint : String
  shardIndex : ℕ
  weight : F
  reliability : F

/-- The shards 0, 1 and 2, round robin. -/
def assignShards (targets : List (Target F)) : List (ShardRoute F) :=
  (range 3).filterMap fun i =>
    targets[i % targets.length]?.map fun t =>
      { peerFingerprint := t.fp, shardIndex := i, weight := t.fitness, reliability := t.fitness }

/-! ### The send -/

/-- A shard on its way, to a peer at its address. -/
structure ShardSend where
  shardIndex : ℕ
  peer : String
  addr : SocketAddr
  data : Bytes

def availablePeers (allPeers : Table String SocketAddr) (primaryFp : String)
    (primaryDst : SocketAddr) : List (String × SocketAddr) :=
  let available := allPeers.entries.map fun e => (e.1, e.2)
  if available.any fun peer => peer.1 = primaryFp then available
  else available ++ [(primaryFp, primaryDst)]

/-- The targets, by the plan if it knows anything. -/
def shardTargets [LinearOrder F] [LinearOrder T] (router : AdaptiveShardRouter F)
    (plan : Option (PlanView T)) (me : String) (available : List (String × SocketAddr)) :
    List (Target F) :=
  match plan.filter fun p => !p.isEmpty with
  | some plan => router.selectShardTargetsRouted me available plan shardTargetCount
  | none => router.selectShardTargets available

/-- The loop over the routes, within the three shards that the route constraint allows. -/
def sendRoutes (f : List.Vector Bytes 3) (primaryDst : SocketAddr) (selected : List (Target F)) :
    List ShardSend :=
  (((assignShards selected).filter fun route => route.shardIndex < f.toList.length).take 3).map
    fun route =>
      { shardIndex := route.shardIndex
        peer := route.peerFingerprint
        addr := ((selected.find? fun t => t.fp = route.peerFingerprint).map Target.addr).getD
          primaryDst
        data := f.toList[route.shardIndex]?.getD [] }

/-- `send3_mixed`, all shards to the destination. -/
def sendDirect (f : List.Vector Bytes 3) (primaryFp : String) (primaryDst : SocketAddr) :
    List ShardSend :=
  (range 3).map fun i =>
    { shardIndex := i, peer := primaryFp, addr := primaryDst, data := f.toList[i]?.getD [] }

def send3Adaptive [LinearOrder F] [LinearOrder T] (router : AdaptiveShardRouter F)
    (allPeers : Table String SocketAddr) (plan : Option (PlanView T))
    (me primaryFp : String) (primaryDst : SocketAddr) (f : List.Vector Bytes 3) : List ShardSend :=
  let available := availablePeers allPeers primaryFp primaryDst
  if 1 < available.length then sendRoutes f primaryDst (shardTargets router plan me available)
  else sendDirect f primaryFp primaryDst

def shardsFor (fp : String) (sends : List ShardSend) : Finset ℕ :=
  ((sends.filter fun s => s.peer = fp).map ShardSend.shardIndex).toFinset

/-! ### Round robin -/

variable {targets : List (Target F)}

theorem mem_assignShards {route : ShardRoute F} :
    route ∈ assignShards targets ↔ ∃ i t, i < 3 ∧ targets[i % targets.length]? = some t ∧
      route = { peerFingerprint := t.fp, shardIndex := i, weight := t.fitness
                reliability := t.fitness } := by
  simp only [assignShards, mem_filterMap, mem_range, Option.map_eq_some_iff]
  constructor
  · rintro ⟨i, hi, t, ht, rfl⟩
    exact ⟨i, t, hi, ht, rfl⟩
  · rintro ⟨i, t, hi, ht, rfl⟩
    exact ⟨i, hi, t, ht, rfl⟩

variable (f : List.Vector Bytes 3)

theorem assignShards_within (targets : List (Target F)) :
    ((assignShards targets).filter fun route => route.shardIndex < f.toList.length).take 3 =
      assignShards targets := by
  have hfilter : (assignShards targets).filter (fun route => route.shardIndex < f.toList.length) =
      assignShards targets := by
    refine filter_eq_self.mpr fun route hroute => ?_
    obtain ⟨i, t, hi, -, rfl⟩ := mem_assignShards.mp hroute
    rw [f.toList_length]
    exact decide_eq_true hi
  rw [hfilter]
  refine take_of_length_le ?_
  exact (length_filterMap_le _ _).trans (by simp)

theorem mem_shardsFor_sendRoutes {f : List.Vector Bytes 3} {dst : SocketAddr} {fp : String}
    {i : ℕ} :
    i ∈ shardsFor fp (sendRoutes f dst targets) ↔
      i < 3 ∧ targets[i % targets.length]?.map Target.fp = some fp := by
  rw [shardsFor, sendRoutes, assignShards_within]
  simp only [mem_toFinset, mem_map, mem_filter, decide_eq_true_eq,
    Option.map_eq_some_iff]
  constructor
  · rintro ⟨_, ⟨⟨route, hroute, rfl⟩, hfp⟩, hi⟩
    obtain ⟨j, t, hj, ht, rfl⟩ := mem_assignShards.mp hroute
    dsimp only at hfp hi
    subst hi
    exact ⟨hj, t, ht, hfp⟩
  · rintro ⟨hi, t, ht, hfp⟩
    exact ⟨_, ⟨⟨_, mem_assignShards.mpr ⟨i, t, hi, ht, rfl⟩, rfl⟩, hfp⟩, rfl⟩

theorem shardsFor_sendRoutes (dst : SocketAddr) (targets : List (Target F)) (fp : String) :
    shardsFor fp (sendRoutes f dst targets) =
      (Finset.range 3).filter fun i => targets[i % targets.length]?.map Target.fp = some fp := by
  ext i
  rw [mem_shardsFor_sendRoutes, Finset.mem_filter, Finset.mem_range]

theorem card_shardsFor_le_one (dst : SocketAddr) (hnodup : (targets.map Target.fp).Nodup)
    (hlen : 3 ≤ targets.length) (fp : String) :
    (shardsFor fp (sendRoutes f dst targets)).card ≤ 1 := by
  refine Finset.card_le_one.mpr fun i hi j hj => ?_
  obtain ⟨hi3, hi⟩ := mem_shardsFor_sendRoutes.mp hi
  obtain ⟨hj3, hj⟩ := mem_shardsFor_sendRoutes.mp hj
  rw [Nat.mod_eq_of_lt (hi3.trans_le hlen), ← getElem?_map] at hi
  rw [Nat.mod_eq_of_lt (hj3.trans_le hlen), ← getElem?_map] at hj
  have hlt : i < (targets.map Target.fp).length := by
    rw [length_map]
    omega
  exact (getElem?_inj hlt hnodup).mp (hi.trans hj.symm)

theorem two_shards_iff {f : List.Vector Bytes 3} {dst : SocketAddr}
    (hnodup : (targets.map Target.fp).Nodup) (fp : String) :
    2 ≤ (shardsFor fp (sendRoutes f dst targets)).card ↔
      targets.length ≤ 2 ∧ targets.head?.map Target.fp = some fp := by
  match targets, hnodup with
  | [], _ => simp [shardsFor_sendRoutes]
  | [a], _ =>
      rw [shardsFor_sendRoutes]
      by_cases ha : a.fp = fp <;> simp [Nat.mod_one, ha]
  | [a, b], hnodup =>
      have hne : a.fp ≠ b.fp := by simpa using hnodup
      rw [shardsFor_sendRoutes, show Finset.range 3 = {0, 1, 2} from rfl]
      simp only [length_cons, length_nil, Finset.filter_insert, Finset.filter_singleton]
      by_cases ha : a.fp = fp
      · have hb : b.fp ≠ fp := fun hb => hne (ha.trans hb.symm)
        simp [ha, hb]
      · by_cases hb : b.fp = fp <;> simp [ha, hb]
  | a :: b :: c :: rest, hnodup =>
      have hle := card_shardsFor_le_one f dst hnodup (by simp) fp
      simp only [length_cons]
      omega

/-! ### Who comes first -/

/-- The peer is the only one, or of two it is the one ahead; `ahead a b` compares two peers of which
the table lists `a` before `b`. -/
def RankedFirst (ahead : String → String → Bool) (fp : String) : List String → Prop
  | [a] => a = fp
  | [a, b] => if ahead a b then a = fp else b = fp
  | _ => False

instance (ahead : String → String → Bool) (fp : String) :
    ∀ peers, Decidable (RankedFirst ahead fp peers)
  | [] => inferInstanceAs (Decidable False)
  | [a] => inferInstanceAs (Decidable (a = fp))
  | [a, b] => inferInstanceAs (Decidable (if ahead a b then a = fp else b = fp))
  | _ :: _ :: _ :: _ => inferInstanceAs (Decidable False)

/-- A selection of all of these peers that puts two of them in the order of `ahead`. -/
structure Selects (router : AdaptiveShardRouter F) (ahead : String → String → Bool)
    (peers : List (String × SocketAddr)) (selected : List (Target F)) : Prop where
  perm : selected.Perm (peers.map router.target)
  pair : ∀ a b, peers = [a, b] → selected =
    if ahead a.1 b.1 then [router.target a, router.target b] else [router.target b, router.target a]

variable {ahead : String → String → Bool} {peers : List (String × SocketAddr)}
  {selected : List (Target F)}

theorem Selects.first_iff {router : AdaptiveShardRouter F} (h : Selects router ahead peers selected)
    (fp : String) :
    (selected.length ≤ 2 ∧ selected.head?.map Target.fp = some fp) ↔
      RankedFirst ahead fp (peers.map Prod.fst) := by
  have hlen : selected.length = peers.length := by rw [h.perm.length_eq, length_map]
  match peers, h with
  | [], h =>
      rw [length_eq_zero_iff.mp hlen]
      simp [RankedFirst]
  | [a], h =>
      rw [perm_singleton.mp h.perm]
      simp [RankedFirst, AdaptiveShardRouter.target]
  | [a, b], h =>
      rw [h.pair a b rfl]
      simp only [map_cons, map_nil, RankedFirst]
      split <;> simp [AdaptiveShardRouter.target]
  | a :: b :: c :: rest, h =>
      simp only [length_cons] at hlen
      simp only [map_cons, RankedFirst, iff_false, not_and]
      omega

theorem Selects.nodup {router : AdaptiveShardRouter F} (h : Selects router ahead peers selected)
    (hnodup : (peers.map Prod.fst).Nodup) : (selected.map Target.fp).Nodup := by
  have hfps : (peers.map router.target).map Target.fp = peers.map Prod.fst := by
    rw [map_map]
    rfl
  rw [(h.perm.map Target.fp).nodup_iff, hfps]
  exact hnodup

theorem perm_acceptDisjoint (used : List String) (candidates : List (Candidate F T)) :
    ((acceptDisjoint used candidates).1 ++ (acceptDisjoint used candidates).2).Perm candidates := by
  induction candidates generalizing used with
  | nil => exact .refl _
  | cons c rest ih =>
      unfold acceptDisjoint
      split
      · exact perm_middle.trans ((ih used).cons c)
      · exact (ih _).cons c

theorem acceptDisjoint_pair [LinearOrder T] (x y : Candidate F T) :
    (acceptDisjoint [] [x, y]).1 ++ byArrival (acceptDisjoint [] [x, y]).2 = [x, y] := by
  by_cases hoverlap : y.journey.transitNodes.any (· ∈ x.journey.transitNodes) = true
  · simp [acceptDisjoint, byArrival, hoverlap]
  · simp [acceptDisjoint, byArrival, hoverlap]

section Ranking

variable [LinearOrder F] [LinearOrder T] (router : AdaptiveShardRouter F)

/-- Without a plan, the other one is not fitter. -/
def fitterFirst (a b : String) : Bool := router.pathFitness b ≤ router.pathFitness a

theorem selects_selectShardTargets (available : List (String × SocketAddr)) :
    Selects router (fitterFirst router)
      (available.filter fun peer => router.minFitness ≤ router.pathFitness peer.1)
      (router.selectShardTargets available) where
  perm := by
    unfold AdaptiveShardRouter.selectShardTargets
    rw [filter_map]
    exact perm_insertionSort ..
  pair a b hpeers := by
    unfold AdaptiveShardRouter.selectShardTargets
    rw [filter_map]
    rw [show available.filter ((fun t : Target F => decide (router.minFitness ≤ t.fitness)) ∘
      router.target) = [a, b] from hpeers]
    simp [insertionSort, orderedInsert, fitterFirst, AdaptiveShardRouter.target]

/-- With a plan: a route before none, then the earlier arrival; without routes, the fitter one,
then the smaller fingerprint. -/
def plannedFirst (plan : PlanView T) (a b : String) : Bool :=
  match plan.findEarliestArrival a, plan.findEarliestArrival b with
  | some j, some j' => j.arrivalTime ≤ j'.arrivalTime
  | some _, none => true
  | none, some _ => false
  | none, none =>
      router.pathFitness b < router.pathFitness a ||
        (router.pathFitness b = router.pathFitness a && a ≤ b)

variable (plan : PlanView T) (peers : List (String × SocketAddr))

omit [LinearOrder F] in
theorem perm_routedTargets :
    (router.routedTargets plan peers).Perm
      ((peers.filter fun peer => (plan.findEarliestArrival peer.1).isSome).map router.target) := by
  have hcandidates : (peers.filterMap fun peer =>
      (plan.findEarliestArrival peer.1).map fun journey =>
        ({ target := router.target peer, journey := journey } : Candidate F T)).map
          Candidate.target =
      (peers.filter fun peer => (plan.findEarliestArrival peer.1).isSome).map router.target := by
    induction peers with
    | nil => rfl
    | cons peer peers ih =>
        cases hroute : plan.findEarliestArrival peer.1 with
        | none => simpa [hroute] using ih
        | some journey => simpa [hroute] using ih
  rw [← hcandidates]
  unfold AdaptiveShardRouter.routedTargets
  dsimp only
  refine Perm.map Candidate.target ?_
  have hdeferred := perm_insertionSort
    (fun a b : Candidate F T => a.journey.arrivalTime ≤ b.journey.arrivalTime)
  refine ((Perm.append_left _ (hdeferred _)).trans (perm_acceptDisjoint [] _)).trans ?_
  exact hdeferred _

omit [LinearOrder F] in
theorem unrouted_eq :
    (peers.filter fun peer =>
      (router.routedTargets plan peers).all fun selected => selected.fp ≠ peer.1) =
      peers.filter fun peer => !(plan.findEarliestArrival peer.1).isSome := by
  refine filter_congr fun peer hpeer => ?_
  have hmem : ∀ t, t ∈ router.routedTargets plan peers ↔ t ∈
      (peers.filter fun peer => (plan.findEarliestArrival peer.1).isSome).map router.target :=
    fun t => (perm_routedTargets router plan peers).mem_iff
  rw [Bool.eq_iff_iff, all_eq_true]
  constructor
  · intro hall
    by_contra hroute
    have hroute : (plan.findEarliestArrival peer.1).isSome = true :=
      Option.isSome_iff_ne_none.mpr (by simpa using hroute)
    have hselected := (hmem (router.target peer)).mpr
      (mem_map_of_mem (mem_filter.mpr ⟨hpeer, hroute⟩))
    simpa [AdaptiveShardRouter.target] using hall _ hselected
  · intro hnone t ht
    obtain ⟨peer', hpeer', rfl⟩ := mem_map.mp ((hmem t).mp ht)
    have hroute := (mem_filter.mp hpeer').2
    refine decide_eq_true fun heq => ?_
    have heq : peer'.1 = peer.1 := heq
    rw [heq] at hroute
    simp [hroute] at hnone

omit [LinearOrder F] in
theorem routedTargets_pair {plan : PlanView T} {a b : String × SocketAddr} {j j' : Journey T}
    (ha : plan.findEarliestArrival a.1 = some j) (hb : plan.findEarliestArrival b.1 = some j') :
    router.routedTargets plan [a, b] =
      if j.arrivalTime ≤ j'.arrivalTime then [router.target a, router.target b]
      else [router.target b, router.target a] := by
  have hcandidates : ([a, b].filterMap fun peer => (plan.findEarliestArrival peer.1).map
      fun journey => ({ target := router.target peer, journey := journey } : Candidate F T)) =
      [{ target := router.target a, journey := j }, { target := router.target b, journey := j' }] := by
    simp [ha, hb]
  unfold AdaptiveShardRouter.routedTargets
  rw [hcandidates]
  dsimp only
  split
  · rename_i hle
    rw [show byArrival [({ target := router.target a, journey := j } : Candidate F T),
      { target := router.target b, journey := j' }] = [_, _] from if_pos hle, acceptDisjoint_pair]
    rfl
  · rename_i hlt
    rw [show byArrival [({ target := router.target a, journey := j } : Candidate F T),
      { target := router.target b, journey := j' }] = [_, _] from if_neg hlt, acceptDisjoint_pair]
    rfl

/-- All of the targets, before the list is cut off. -/
def plannedTargets (plan : PlanView T) (peers : List (String × SocketAddr)) : List (Target F) :=
  router.routedTargets plan peers ++
    ((peers.filter fun peer => !(plan.findEarliestArrival peer.1).isSome).map
      router.target).insertionSort Target.before

theorem selectShardTargetsRouted_eq (me : String) (available : List (String × SocketAddr))
    (plan : PlanView T) :
    router.selectShardTargetsRouted me available plan shardTargetCount =
      (plannedTargets router plan (available.filter fun peer => peer.1 ≠ me)).take 3 := by
  unfold AdaptiveShardRouter.selectShardTargetsRouted plannedTargets
  dsimp only
  rw [unrouted_eq]
  rfl

theorem selects_plannedTargets :
    Selects router (plannedFirst router plan) peers (plannedTargets router plan peers) where
  perm := by
    refine ((perm_routedTargets router plan peers).append (perm_insertionSort ..)).trans ?_
    rw [← map_append]
    exact (filter_append_perm _ peers).map router.target
  pair a b hpeers := by
    subst hpeers
    unfold plannedTargets plannedFirst
    cases ha : plan.findEarliestArrival a.1 with
    | none =>
        cases hb : plan.findEarliestArrival b.1 with
        | none =>
            simp [AdaptiveShardRouter.routedTargets, ha, hb, acceptDisjoint, byArrival,
              Target.before, AdaptiveShardRouter.target]
        | some j =>
            simp [AdaptiveShardRouter.routedTargets, ha, hb, acceptDisjoint, byArrival]
    | some j =>
        cases hb : plan.findEarliestArrival b.1 with
        | none => simp [AdaptiveShardRouter.routedTargets, ha, hb, acceptDisjoint, byArrival]
        | some j' =>
            rw [routedTargets_pair router ha hb]
            simp [ha, hb]

/-- The peers that shards may go to, and the order that decides between two of them: with a plan
all but this node itself, else the ones that are fit enough. The destination is alone in the table,
or the first of them. -/
def DestinationFirst (allPeers : Table String SocketAddr) (plan : Option (PlanView T))
    (me primaryFp : String) (primaryDst : SocketAddr) : Prop :=
  let available := availablePeers allPeers primaryFp primaryDst
  available.length ≤ 1 ∨
    match plan.filter fun p => !p.isEmpty with
    | some plan => RankedFirst (plannedFirst router plan) primaryFp
        ((available.filter fun peer => peer.1 ≠ me).map Prod.fst)
    | none => RankedFirst (fitterFirst router) primaryFp
        ((available.filter fun peer => router.minFitness ≤ router.pathFitness peer.1).map Prod.fst)

end Ranking

/-! ### The whole -/

theorem nodup_availablePeers (allPeers : Table String SocketAddr) (primaryFp : String)
    (primaryDst : SocketAddr) :
    ((availablePeers allPeers primaryFp primaryDst).map Prod.fst).Nodup := by
  have hkeys : ((allPeers.entries.map fun e => (e.1, e.2)).map Prod.fst).Nodup := by
    rw [map_map]
    exact allPeers.nodupKeys
  unfold availablePeers
  dsimp only
  split
  · exact hkeys
  · rename_i hnew
    rw [map_append]
    refine hkeys.append (nodup_singleton _) fun fp hfp hmem => ?_
    obtain ⟨peer, hpeer, rfl⟩ := mem_map.mp hfp
    refine hnew (any_eq_true.mpr ⟨peer, hpeer, decide_eq_true ?_⟩)
    exact mem_singleton.mp hmem

theorem card_shardsFor_sendDirect (fp : String) (dst : SocketAddr) :
    (shardsFor fp (sendDirect f fp dst)).card = 3 := by
  have hall : shardsFor fp (sendDirect f fp dst) = Finset.range 3 := by
    ext i
    simp [shardsFor, sendDirect]
  rw [hall, Finset.card_range]

theorem Selects.two_shards_iff {router : AdaptiveShardRouter F}
    (h : Selects router ahead peers selected) (hnodup : (peers.map Prod.fst).Nodup)
    (f : List.Vector Bytes 3) (dst : SocketAddr) (fp : String) :
    2 ≤ (shardsFor fp (sendRoutes f dst (selected.take 3))).card ↔
      RankedFirst ahead fp (peers.map Prod.fst) := by
  have hcut : ((selected.take 3).map Target.fp).Nodup :=
    (h.nodup hnodup).sublist ((take_sublist 3 selected).map Target.fp)
  rw [Net.two_shards_iff hcut, ← h.first_iff fp, length_take, head?_take]
  simp

/-- The destination gets two of the three shards, so that it can reconstruct the message, exactly if
it is the only peer, or comes first of at most two that shards may go to. -/
theorem destination_reconstructs_iff [LinearOrder F] [LinearOrder T]
    (router : AdaptiveShardRouter F) (allPeers : Table String SocketAddr)
    (plan : Option (PlanView T)) (me primaryFp : String) (primaryDst : SocketAddr)
    (f : List.Vector Bytes 3) :
    2 ≤ (shardsFor primaryFp
      (send3Adaptive router allPeers plan me primaryFp primaryDst f)).card ↔
      DestinationFirst router allPeers plan me primaryFp primaryDst := by
  have hnodup := nodup_availablePeers allPeers primaryFp primaryDst
  unfold send3Adaptive DestinationFirst
  generalize availablePeers allPeers primaryFp primaryDst = available at hnodup
  have hfilter : ∀ p : String × SocketAddr → Bool, ((available.filter p).map Prod.fst).Nodup :=
    fun p => hnodup.sublist (filter_sublist.map Prod.fst)
  dsimp only
  split
  · rename_i hmany
    rw [or_iff_right (not_le.mpr hmany), shardTargets]
    cases plan.filter fun p => !p.isEmpty with
    | some plan =>
        dsimp only
        rw [selectShardTargetsRouted_eq]
        exact (selects_plannedTargets router plan _).two_shards_iff (hfilter _) f primaryDst primaryFp
    | none =>
        have hselects := selects_selectShardTargets router available
        rw [Net.two_shards_iff (hselects.nodup (hfilter _))]
        exact hselects.first_iff primaryFp
  · rename_i hone
    rw [card_shardsFor_sendDirect]
    exact iff_of_true (by omega) (.inl (not_lt.mp hone))

section Spread

/-- A router that has measured nothing: every path has the default fitness. -/
def unmeasured : AdaptiveShardRouter ℚ where
  pathFitness _ := 1 / 2
  minFitness := 3 / 10

def threePeers : Table String SocketAddr :=
  let addr (n : UInt8) : SocketAddr := { ip := .v4 (List.Vector.replicate 4 n), port := 4000 }
  ((AList.singleton "cc" (addr 3)).insert "bb" (addr 2)).insert "aa" (addr 1)

/-- Of a message to one of three peers, two shards go to the others. -/
theorem shards_spread_over_strangers :
    let dst : SocketAddr := { ip := .v4 (List.Vector.replicate 4 1), port := 4000 }
    ¬ 2 ≤ (shardsFor "aa" (send3Adaptive unmeasured threePeers (none : Option (PlanView ℚ)) "me" "aa"
      dst (List.Vector.replicate 3 [1]))).card := by
  decide +kernel

end Spread

end Vantablack.Net
