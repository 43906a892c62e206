import Mathlib.Algebra.BigOperators.Group.Finset.Piecewise
import Mathlib.Algebra.Order.BigOperators.Group.Finset
import Mathlib.Data.Fintype.Card
import Mathlib.Logic.Relation
import Mathlib.Order.Lattice.Nat
import Vantablack.Abos.Network

/-!
How often a node sends a message on. Bundles are marked, so that each node sends each at most once.
Beacons are not: a node sends on every copy that it hears, so that the flood ends only where no node
hears it from two sides.
-/

namespace Vantablack.Abos

open Lib Relation List Message

/-- Each node has sent each message on at most once, so that there is no more of it than nodes. -/
structure AtMostOnce {ι : Type*} [DecidableEq ι] [Fintype ι] (s : State ι) : Prop where
  beacon : ∀ v origin timestamp, copies v (isBeacon origin timestamp) s.relayed ≤ 1
  bundle : ∀ v id, copies v (isBundle id) s.relayed ≤ 1
  beacons : ∀ origin timestamp,
    (s.relayed.countP fun e => e.2.isBeacon origin timestamp) ≤ Fintype.card ι
  bundles : ∀ id, (s.relayed.countP fun e => e.2.isBundle id) ≤ Fintype.card ι

/-- Of the nodes that a flood comes to, no two are heard by one node, other than its origin. -/
def Network.HeardOnce {ι : Type*} (net : Network ι) : Prop :=
  ∀ origin u u' x, ReflTransGen net.Link origin u → ReflTransGen net.Link origin u' →
    x ≠ origin → net.Link u x → net.Link u' x → u = u'

variable {ι : Type*} [DecidableEq ι] {net : Network ι} {s s' : State ι}

/-! ### Beacons -/

/-- What holds of beacons in every run, whatever the network. -/
structure Beacons (net : Network ι) (s : State ι) : Prop where
  balanced : Balanced net s
  localId : ∀ v, (s.node v).localId = v
  interval : ∀ v, 0 < (s.node v).beaconIntervalSecs
  hops : ∀ e ∈ s.inFlight, ∀ b, e.2 = .beacon b → b.hopCount < b.ttl
  emitted : ∀ v b, (v, .beacon b) ∈ s.emitted →
    b.origin = v ∧ b.timestamp ≤ (s.node v).lastBeaconAt
  once : ∀ v timestamp, copies v (isBeacon v timestamp) s.emitted ≤ 1
  relayed : ∀ v origin timestamp, v ≠ origin →
    copies v (isBeacon origin timestamp) s.relayed =
      copies v (isBeacon origin timestamp) s.handed
  foreign : ∀ v b, (v, .beacon b) ∈ s.relayed → b.origin ≠ v

theorem beacons_initial (net : Network ι) : Beacons net .initial where
  balanced := balanced_initial net
  localId := fun _ => rfl
  interval := fun _ => Nat.succ_pos _
  hops := fun _ he => absurd he not_mem_nil
  emitted := fun _ _ he => absurd he not_mem_nil
  once := fun _ _ => Nat.zero_le _
  relayed := fun _ _ _ _ => rfl
  foreign := fun _ _ he => absurd he not_mem_nil

theorem Beacons.hops_effect (h : Beacons net s) (heffect : Effect net s s') :
    ∀ e ∈ s'.inFlight, ∀ b, e.2 = .beacon b → b.hopCount < b.ttl := by
  intro e he b hb
  cases heffect with
  | quiet v m _ => exact h.hops e he b hb
  | emitBeacon v now nodeAlias _ =>
      rcases mem_flood he with hold | ⟨hnew, -⟩
      · exact h.hops e hold b hb
      · rw [hnew] at hb
        cases hb
        exact Nat.succ_pos 2
  | transmit v bundle now =>
      rcases mem_flood he with hold | ⟨hnew, -⟩
      · exact h.hops e hold b hb
      · rw [hnew] at hb
        cases hb
  | dropBeacon i v b' m _ _ _ => exact h.hops e (mem_of_mem_eraseIdx he) b hb
  | relayBeacon i v b' m _ _ _ hhops =>
      rcases mem_flood he with hold | ⟨hnew, -⟩
      · exact h.hops e (mem_of_mem_eraseIdx hold) b hb
      · rw [hnew] at hb
        cases hb
        exact hhops
  | dropBundle i v b' _ _ => exact h.hops e (mem_of_mem_eraseIdx he) b hb
  | relayBundle i v b' now _ _ =>
      rcases mem_flood he with hold | ⟨hnew, -⟩
      · exact h.hops e (mem_of_mem_eraseIdx hold) b hb
      · rw [hnew] at hb
        cases hb

theorem Beacons.emitted_effect (h : Beacons net s) (heffect : Effect net s s') :
    (∀ v b, (v, .beacon b) ∈ s'.emitted →
        b.origin = v ∧ b.timestamp ≤ (s'.node v).lastBeaconAt) ∧
      ∀ v timestamp, copies v (isBeacon v timestamp) s'.emitted ≤ 1 := by
  have hold : ∀ v b, (v, .beacon b) ∈ s.emitted →
      b.origin = v ∧ b.timestamp ≤ (s'.node v).lastBeaconAt := by
    intro v b hb
    obtain ⟨horigin, hle⟩ := h.emitted v b hb
    exact ⟨horigin, hle.trans ((heffect.node v).2.2 (h.interval v))⟩
  cases heffect with
  | emitBeacon v now nodeAlias hdue =>
      have hlocal := h.localId v
      have hpos := h.interval v
      refine ⟨fun w b hb => ?_, fun w timestamp => ?_⟩
      · rcases mem_cons.mp hb with hnew | hb
        · cases hnew
          refine ⟨hlocal, ?_⟩
          show now ≤ ((s.setNode v _).node v).lastBeaconAt
          rw [State.setNode_apply, if_pos rfl]
        · exact hold w b hb
      · show copies w _ (_ :: s.emitted) ≤ 1
        rw [copies_cons]
        by_cases hkey : w = v ∧ timestamp = now
        · obtain ⟨rfl, rfl⟩ := hkey
          -- what the node emitted before is older
          have hnone : copies w (isBeacon w timestamp) s.emitted = 0 := by
            refine (copies_eq_zero_iff ..).mpr fun msg hmem hp => ?_
            obtain ⟨b, rfl, -, hts⟩ := isBeacon_iff.mp hp
            have hle := (h.emitted w b hmem).2
            omega
          rw [hnone]
          split <;> omega
        · have hone := h.once w timestamp
          rw [if_neg]
          · exact hone
          · intro hp
            obtain ⟨hv, hmsg⟩ := Bool.and_eq_true_iff.mp hp
            obtain ⟨_, hb, -, hnow⟩ := isBeacon_iff.mp hmsg
            cases hb
            exact hkey ⟨(of_decide_eq_true hv).symm, hnow.symm⟩
  | transmit v bundle now =>
      refine ⟨fun w b hb => ?_, fun w timestamp => ?_⟩
      · rcases mem_cons.mp hb with hnew | hb
        · cases hnew
        · exact hold w b hb
      · show copies w _ (_ :: s.emitted) ≤ 1
        rw [copies_cons]
        simpa [isBeacon] using h.once w timestamp
  | quiet v m _ => exact ⟨hold, h.once⟩
  | dropBeacon i v b m _ _ _ => exact ⟨hold, h.once⟩
  | relayBeacon i v b m _ _ _ _ => exact ⟨hold, h.once⟩
  | dropBundle i v b _ _ => exact ⟨hold, h.once⟩
  | relayBundle i v b now _ _ => exact ⟨hold, h.once⟩

theorem Beacons.relayed_effect (h : Beacons net s) (heffect : Effect net s s') {v origin : ι}
    (hne : v ≠ origin) (timestamp : ℕ) :
    copies v (isBeacon origin timestamp) s'.relayed =
      copies v (isBeacon origin timestamp) s'.handed := by
  have hold := h.relayed v origin timestamp hne
  cases heffect with
  | quiet w m _ => exact hold
  | emitBeacon w now nodeAlias _ => exact hold
  | transmit w bundle now => exact hold
  | dropBeacon i w b m hcopy _ hstop =>
      show copies v _ s.relayed = copies v _ (_ :: s.handed)
      rw [copies_cons, hold, if_neg]
      · rfl
      · intro hp
        obtain ⟨rfl, horigin, -⟩ : w = v ∧ b.origin = origin ∧ b.timestamp = timestamp := by
          simpa [isBeacon] using hp
        rcases hstop with hown | hspent
        · rw [h.localId, horigin] at hown
          exact hne hown.symm
        · exact absurd (h.hops _ (mem_of_getElem? hcopy) b rfl) (not_lt.mpr hspent)
  | relayBeacon i w b m _ _ _ _ =>
      show copies v _ (_ :: s.relayed) = copies v _ (_ :: s.handed)
      rw [copies_cons, copies_cons, hold]
  | dropBundle i w b _ _ =>
      show copies v _ s.relayed = copies v _ (_ :: s.handed)
      rw [copies_cons, hold]
      simp [isBeacon]
  | relayBundle i w b now _ _ =>
      show copies v _ (_ :: s.relayed) = copies v _ (_ :: s.handed)
      rw [copies_cons, copies_cons, hold]
      simp [isBeacon]

theorem Beacons.foreign_effect (h : Beacons net s) (heffect : Effect net s s') :
    ∀ v b, (v, .beacon b) ∈ s'.relayed → b.origin ≠ v := by
  intro v b hb
  cases heffect with
  | quiet w m _ => exact h.foreign v b hb
  | emitBeacon w now nodeAlias _ => exact h.foreign v b hb
  | transmit w bundle now => exact h.foreign v b hb
  | dropBeacon i w b' m _ _ _ => exact h.foreign v b hb
  | relayBeacon i w b' m _ _ horigin _ =>
      rcases mem_cons.mp hb with hnew | hb
      · cases hnew
        rwa [h.localId] at horigin
      · exact h.foreign v b hb
  | dropBundle i w b' _ _ => exact h.foreign v b hb
  | relayBundle i w b' now _ _ =>
      rcases mem_cons.mp hb with hnew | hb
      · cases hnew
      · exact h.foreign v b hb

theorem Beacons.effect (h : Beacons net s) (heffect : Effect net s s') : Beacons net s' where
  balanced := h.balanced.effect heffect
  localId := fun v => (heffect.node v).1.trans (h.localId v)
  interval := fun v => (heffect.node v).2.1 ▸ h.interval v
  hops := h.hops_effect heffect
  emitted := (h.emitted_effect heffect).1
  once := (h.emitted_effect heffect).2
  relayed := fun _ _ timestamp hne => h.relayed_effect heffect hne timestamp
  foreign := h.foreign_effect heffect

theorem beacons_run (net : Network ι) (events : List (Event ι)) : Beacons net (run net events) :=
  run_invariant (Beacons net) (beacons_initial net) (fun _ _ h heffect => h.effect heffect) events

/-! ### Bundles -/

/-- A node has sent on the bundles that it has marked, each once. -/
def Marked (s : State ι) : Prop :=
  ∀ v id, copies v (isBundle id) s.relayed = if id ∈ (s.node v).forwarded then 1 else 0

theorem marked_setNode (h : Marked s) {v : ι} {m : MeshNode ι}
    (hm : m.forwarded = (s.node v).forwarded) : Marked (s.setNode v m) := by
  intro w id
  rw [State.setNode_apply]
  by_cases hw : w = v
  · subst hw
    rw [if_pos rfl, hm]
    exact h w id
  · rw [if_neg hw]
    exact h w id

theorem Marked.effect (h : Marked s) (heffect : Effect net s s') : Marked s' := by
  cases heffect with
  | quiet v m hm => exact marked_setNode h hm.forwarded
  | emitBeacon v now nodeAlias _ => exact marked_setNode h rfl
  | transmit v bundle now => exact marked_setNode h (MeshNode.trackBundleAt_frame ..).2.2.2
  | dropBeacon i v b m _ hm _ => exact marked_setNode (s := s.hand i _) h hm.forwarded
  | relayBeacon i v b m _ hm _ _ =>
      have hset := marked_setNode (s := s.hand i (v, .beacon b)) h hm.forwarded
      intro w id
      show copies w _ (_ :: s.relayed) = _
      rw [copies_cons, if_neg (by simp [isBundle]), Nat.add_zero]
      exact hset w id
  | dropBundle i v b _ _ => exact h
  | relayBundle i v b now _ hgo =>
      intro w id
      have hw := h w id
      show copies w _ (_ :: s.relayed) = if id ∈ ((s.setNode v _).node w).forwarded then 1 else 0
      rw [copies_cons, hw, State.setNode_apply]
      by_cases hv : w = v
      · subst hv
        rw [if_pos rfl, (MeshNode.trackBundleAt_frame ..).2.2.2]
        by_cases hid : id = b.bundleId
        · subst hid
          simp [isBundle, Bundle.incrementHop, hgo.first]
        · simp [isBundle, Bundle.incrementHop, hid, Ne.symm hid]
      · rw [if_neg hv]
        simp [Ne.symm hv]

theorem marked_run (net : Network ι) (events : List (Event ι)) : Marked (run net events) :=
  run_invariant Marked (fun _ _ => rfl) (fun _ _ h heffect => h.effect heffect) events

theorem copies_bundle_le_one (net : Network ι) (events : List (Event ι)) (v : ι) (id : BundleId) :
    copies v (isBundle id) (run net events).relayed ≤ 1 := by
  rw [marked_run net events v id]
  split <;> omega

theorem countP_le_card [Fintype ι] {l : List (Copy ι)} {p : Message ι → Bool}
    (h : ∀ v, copies v p l ≤ 1) : (l.countP fun e => p e.2) ≤ Fintype.card ι := by
  have hsum : (l.countP fun e => p e.2) = ∑ v, copies v p l := by
    clear h
    induction l with
    | nil => simp [copies]
    | cons e l ih =>
        simp only [copies_cons, Finset.sum_add_distrib, ← ih, countP_cons]
        congr 1
        simp [ite_and]
  calc
    (l.countP fun e => p e.2) = ∑ v, copies v p l := hsum
    _ ≤ ∑ _v : ι, 1 := Finset.sum_le_sum fun v _ => h v
    _ = Fintype.card ι := by simp

/-! ### Where a flood ends -/

/-- The nodes that have sent beacons on are ones that the flood comes to, and did so once. -/
structure Spread (net : Network ι) (s : State ι) : Prop where
  reached : ∀ v b, (v, .beacon b) ∈ s.relayed → ReflTransGen net.Link b.origin v
  once : ∀ v origin timestamp, copies v (isBeacon origin timestamp) s.relayed ≤ 1

section

variable {origin v x : ι} {timestamp : ℕ}

theorem Beacons.reached_of_sent (h : Beacons net s) (hspread : Spread net s) {e : Copy ι}
    (he : e ∈ s.emitted ++ s.relayed) (hp : e.2.isBeacon origin timestamp = true) :
    ReflTransGen net.Link origin e.1 := by
  obtain ⟨u, msg⟩ := e
  obtain ⟨b, rfl, rfl, -⟩ := isBeacon_iff.mp hp
  rcases mem_append.mp he with hemitted | hrelayed
  · obtain ⟨rfl, -⟩ := h.emitted u b hemitted
    exact .refl
  · exact hspread.reached u b hrelayed

theorem Beacons.copies_sent_le_one (h : Beacons net s) (hspread : Spread net s) (u origin : ι)
    (timestamp : ℕ) :
    copies u (isBeacon origin timestamp) (s.emitted ++ s.relayed) ≤ 1 := by
  rw [copies_append]
  by_cases hu : u = origin
  · subst hu
    have hnone : copies u (isBeacon u timestamp) s.relayed = 0 := by
      refine (copies_eq_zero_iff ..).mpr fun msg hmem hp => ?_
      obtain ⟨b, rfl, horigin, -⟩ := isBeacon_iff.mp hp
      exact h.foreign u b hmem horigin
    rw [hnone]
    exact h.once u timestamp
  · have hnone : copies u (isBeacon origin timestamp) s.emitted = 0 := by
      refine (copies_eq_zero_iff ..).mpr fun msg hmem hp => ?_
      obtain ⟨b, rfl, horigin, -⟩ := isBeacon_iff.mp hp
      exact hu ((h.emitted u b hmem).1.symm.trans horigin)
    rw [hnone, Nat.zero_add]
    exact hspread.once u origin timestamp

theorem Beacons.heardBy_le_one (h : Beacons net s) (hspread : Spread net s) (hnet : net.HeardOnce)
    (hx : x ≠ origin) :
    heardBy net x (isBeacon origin timestamp) (s.emitted ++ s.relayed) ≤ 1 := by
  by_cases hnone : heardBy net x (isBeacon origin timestamp) (s.emitted ++ s.relayed) = 0
  · rw [hnone]
    exact Nat.zero_le 1
  obtain ⟨e, he, hlink, hmsg⟩ := (heardBy_pos_iff ..).mp (Nat.pos_of_ne_zero hnone)
  refine le_trans ?_ (h.copies_sent_le_one hspread e.1 origin timestamp)
  refine countP_mono_left fun e' he' hp' => ?_
  obtain ⟨hlink', hmsg'⟩ := Bool.and_eq_true_iff.mp hp'
  have hsame : e'.1 = e.1 := hnet origin e'.1 e.1 x (h.reached_of_sent hspread he' hmsg')
    (h.reached_of_sent hspread he hmsg) hx (of_decide_eq_true hlink') hlink
  exact Bool.and_eq_true_iff.mpr ⟨decide_eq_true hsame, hmsg'⟩

theorem Beacons.exists_sender (h : Beacons net s) {p : Message ι → Bool}
    (hcopies : 0 < copies x p s.inFlight) :
    ∃ e ∈ s.emitted ++ s.relayed, net.Link e.1 x ∧ p e.2 = true := by
  have hbalance := h.balanced x p
  refine (heardBy_pos_iff ..).mp ?_
  rw [heardBy_append]
  omega

theorem Spread.effect (hspread : Spread net s) (h : Beacons net s) (hnet : net.HeardOnce)
    (heffect : Effect net s s') : Spread net s' := by
  cases heffect with
  | quiet v m _ => exact ⟨hspread.reached, hspread.once⟩
  | emitBeacon v now nodeAlias _ => exact ⟨hspread.reached, hspread.once⟩
  | transmit v bundle now => exact ⟨hspread.reached, hspread.once⟩
  | dropBeacon i v b m _ _ _ => exact ⟨hspread.reached, hspread.once⟩
  | dropBundle i v b _ _ => exact ⟨hspread.reached, hspread.once⟩
  | relayBundle i v b now _ _ =>
      refine ⟨fun w b' hb => ?_, fun w origin timestamp => ?_⟩
      · rcases mem_cons.mp hb with hnew | hb
        · cases hnew
        · exact hspread.reached w b' hb
      · show copies w _ (_ :: s.relayed) ≤ 1
        rw [copies_cons, if_neg (by simp [isBeacon])]
        exact hspread.once w origin timestamp
  | relayBeacon i v b m hcopy _ horigin _ =>
      rw [h.localId] at horigin
      have hinFlight : 0 < copies v (isBeacon b.origin b.timestamp) s.inFlight :=
        (copies_pos_iff ..).mpr
          ⟨_, mem_of_getElem? hcopy, isBeacon_iff.mpr ⟨b, rfl, rfl, rfl⟩⟩
      refine ⟨fun w b' hb => ?_, fun w origin timestamp => ?_⟩
      · rcases mem_cons.mp hb with hnew | hb
        · cases hnew
          obtain ⟨e, he, hlink, hp⟩ := h.exists_sender hinFlight
          exact (h.reached_of_sent hspread he hp).tail hlink
        · exact hspread.reached w b' hb
      · show copies w _ (_ :: s.relayed) ≤ 1
        rw [copies_cons]
        by_cases hkey : (v = w && isBeacon origin timestamp (.beacon b)) = true
        · obtain ⟨rfl, rfl, rfl⟩ : v = w ∧ b.origin = origin ∧ b.timestamp = timestamp := by
            simpa [isBeacon] using hkey
          have hbalance := h.balanced v (isBeacon b.origin b.timestamp)
          have hhanded := h.relayed v b.origin b.timestamp horigin.symm
          have hheard : heardBy net v (isBeacon b.origin b.timestamp)
              (s.emitted ++ s.relayed) ≤ 1 := h.heardBy_le_one hspread hnet horigin.symm
          rw [heardBy_append] at hheard
          rw [if_pos hkey]
          omega
        · rw [if_neg hkey]
          exact hspread.once w origin timestamp

/-! ### Where it does not -/

theorem Effect.mem_emitted (h : Effect net s s') {e : Copy ι} (he : e ∈ s.emitted) :
    e ∈ s'.emitted := by
  cases h with
  | quiet v m _ => exact he
  | emitBeacon v now nodeAlias _ => exact mem_cons_of_mem _ he
  | transmit v bundle now => exact mem_cons_of_mem _ he
  | dropBeacon i v b m _ _ _ => exact he
  | relayBeacon i v b m _ _ _ _ => exact he
  | dropBundle i v b _ _ => exact he
  | relayBundle i v b now _ _ => exact he

theorem Beacons.deliver_relayed (h : Beacons net s) {i : ℕ} {b : Beacon ι}
    (hcopy : s.inFlight[i]? = some (v, .beacon b)) (hv : v ≠ b.origin) (now : ℕ) :
    (s.deliver net i now).relayed = (v, .beacon b) :: s.relayed := by
  have hgo : b.origin ≠ (s.node v).localId ∧ b.hopCount < b.ttl := by
    rw [h.localId]
    exact ⟨hv.symm, h.hops _ (mem_of_getElem? hcopy) b rfl⟩
  have hout := ABOSSystem.onBeacon_fst (s.node v) now b
  rw [if_pos hgo] at hout
  rw [State.deliver, hcopy]
  dsimp only
  rw [onMessage, Prod.map_fst, hout]
  rfl

theorem Beacons.all_sent (h : Beacons net s)
    (hstart : ∃ e ∈ s.emitted, e.1 = origin ∧ e.2.isBeacon origin timestamp = true)
    (hquiet : ∀ x ≠ origin, copies x (isBeacon origin timestamp) s.inFlight = 0) {u : ι}
    (hu : ReflTransGen net.Link origin u) :
    ∃ e ∈ s.emitted ++ s.relayed, e.1 = u ∧ e.2.isBeacon origin timestamp = true := by
  obtain ⟨start, hmem, hnode, hkey⟩ := hstart
  induction hu with
  | refl => exact ⟨start, mem_append_left _ hmem, hnode, hkey⟩
  | @tail u x _ hlink ih =>
      by_cases hx : x = origin
      · exact ⟨start, mem_append_left _ hmem, hnode.trans hx.symm, hkey⟩
      obtain ⟨e, he, rfl, hp⟩ := ih
      have hheard : 0 < heardBy net x (isBeacon origin timestamp) (s.emitted ++ s.relayed) :=
        (heardBy_pos_iff ..).mpr ⟨e, he, hlink, hp⟩
      have hbalance := h.balanced x (isBeacon origin timestamp)
      have hhanded := h.relayed x origin timestamp hx
      have hair := hquiet x hx
      rw [heardBy_append] at hheard
      have hrelayed : 0 < copies x (isBeacon origin timestamp) s.relayed := by
        omega
      obtain ⟨msg, hmem', hp'⟩ := (copies_pos_iff ..).mp hrelayed
      exact ⟨(x, msg), mem_append_right _ hmem', rfl, hp'⟩

theorem Beacons.two_le_copies (h : Beacons net s)
    (hstart : ∃ e ∈ s.emitted, e.1 = origin ∧ e.2.isBeacon origin timestamp = true)
    (hquiet : ∀ x ≠ origin, copies x (isBeacon origin timestamp) s.inFlight = 0) {u u' : ι}
    (hu : ReflTransGen net.Link origin u) (hu' : ReflTransGen net.Link origin u') (hne : u ≠ u')
    (hx : x ≠ origin) (hlink : net.Link u x) (hlink' : net.Link u' x) :
    2 ≤ copies x (isBeacon origin timestamp) s.relayed := by
  obtain ⟨e, he, rfl, hp⟩ := h.all_sent hstart hquiet hu
  obtain ⟨e', he', rfl, hp'⟩ := h.all_sent hstart hquiet hu'
  have hheard : 2 ≤ heardBy net x (isBeacon origin timestamp) (s.emitted ++ s.relayed) := by
    have hsub : [e, e'] ⊆ (s.emitted ++ s.relayed).filter fun e =>
        x ∈ net.neighbours e.1 && e.2.isBeacon origin timestamp := by
      intro c hc
      rcases mem_cons.mp hc with rfl | hc
      · exact mem_filter.mpr ⟨he, Bool.and_eq_true_iff.mpr ⟨decide_eq_true hlink, hp⟩⟩
      · obtain rfl := mem_singleton.mp hc
        exact mem_filter.mpr ⟨he', Bool.and_eq_true_iff.mpr ⟨decide_eq_true hlink', hp'⟩⟩
    have hnodup : [e, e'].Nodup := by
      simpa using fun heq : e = e' => hne (congrArg Prod.fst heq)
    have hlength := (subperm_of_subset hnodup hsub).length_le
    rwa [heardBy, countP_eq_length_filter]
  have hbalance := h.balanced x (isBeacon origin timestamp)
  have hhanded := h.relayed x origin timestamp hx
  have hair := hquiet x hx
  rw [heardBy_append] at hheard
  omega

end

theorem exists_max {α : Type*} [Nonempty α] (f : α → ℕ) {n : ℕ} (h : ∀ a, f a ≤ n) :
    ∃ a, ∀ b, f b ≤ f a := by
  have hbounded : BddAbove (Set.range f) := ⟨n, Set.forall_mem_range.mpr h⟩
  obtain ⟨a, ha⟩ := Nat.sSup_mem (Set.range_nonempty f) hbounded
  refine ⟨a, fun b => ?_⟩
  rw [ha]
  exact le_csSup hbounded (Set.mem_range_self b)

theorem spread_run (hnet : net.HeardOnce) (events : List (Event ι)) :
    Spread net (run net events) := by
  have hboth : Beacons net (run net events) ∧ Spread net (run net events) := by
    refine run_invariant (fun s => Beacons net s ∧ Spread net s)
      ⟨beacons_initial net, fun _ _ hb => absurd hb not_mem_nil, fun _ _ _ => Nat.zero_le 1⟩ ?_
      events
    rintro s s' ⟨h, hspread⟩ heffect
    exact ⟨h.effect heffect, hspread.effect h hnet heffect⟩
  exact hboth.2

theorem mem_emitted_run (net : Network ι) (origin : ι) (events : List (Event ι)) :
    (origin, .beacon (Beacon.new origin "" 30)) ∈
      (run net (.emitBeacon origin 30 "" :: events)).emitted := by
  refine foldl_invariant (fun s : State ι =>
    (origin, Message.beacon (Beacon.new origin "" 30)) ∈ s.emitted) (fun s e hs => ?_) ?_ events
  · rcases effect_step net s e with heq | heffect
    · rwa [heq]
    · exact heffect.mem_emitted hs
  · exact mem_cons_self

theorem run_concat (net : Network ι) (events : List (Event ι)) (e : Event ι) :
    run net (events ++ [e]) = step net (run net events) e :=
  foldl_append ..

/-- In every run each node sends each message on at most once, exactly if the network is one where
no flood is heard from two sides. -/
theorem atMostOnce_run_iff [Fintype ι] (net : Network ι) :
    (∀ events, AtMostOnce (run net events)) ↔ net.HeardOnce := by
  constructor
  · intro h origin u u' x hu hu' hx hlink hlink'
    by_contra hne
    let start : Event ι := .emitBeacon origin 30 ""
    let key : Message ι → Bool := isBeacon origin 30
    -- a run in which the beacon is sent on as often as it can be
    obtain ⟨events, hmax⟩ := exists_max
      (fun events => (run net (start :: events)).relayed.countP fun e => key e.2)
      (fun events => (h (start :: events)).beacons origin 30)
    have hbeacons := beacons_run net (start :: events)
    have hstart : ∃ e ∈ (run net (start :: events)).emitted, e.1 = origin ∧ key e.2 = true :=
      ⟨_, mem_emitted_run net origin events, rfl, by simp [key, isBeacon, Beacon.new]⟩
    have hquiet : ∀ y ≠ origin, copies y key (run net (start :: events)).inFlight = 0 := by
      intro y hy
      by_contra hsome
      obtain ⟨msg, hmem, hmsg⟩ := (copies_pos_iff ..).mp (Nat.pos_of_ne_zero hsome)
      obtain ⟨i, hi⟩ := mem_iff_getElem?.mp hmem
      obtain ⟨b, rfl, rfl, -⟩ := isBeacon_iff.mp hmsg
      have hmore := hmax (events ++ [.deliver i 0])
      rw [← cons_append, run_concat, step, hbeacons.deliver_relayed hi hy,
        countP_cons, if_pos hmsg] at hmore
      exact Nat.not_succ_le_self _ hmore
    have htwo := hbeacons.two_le_copies hstart hquiet hu hu' hne hx hlink hlink'
    have hone := (h (start :: events)).beacon x origin 30
    omega
  · intro hnet events
    have honce := (spread_run hnet events).once
    have hbundle := copies_bundle_le_one net events
    exact ⟨honce, hbundle, fun origin timestamp => countP_le_card fun v => honce v origin timestamp,
      fun id => countP_le_card fun v => hbundle v id⟩

omit [DecidableEq ι] in
/-- Where the links go both ways, a flood is heard once exactly if no node has two neighbours. -/
theorem heardOnce_iff_of_symmetric (hsymm : ∀ u v, net.Link u v → net.Link v u)
    (hirrefl : ∀ v, ¬ net.Link v v) :
    net.HeardOnce ↔ ∀ v x y, net.Link v x → net.Link v y → x = y := by
  constructor
  · intro h v x y hx hy
    have hxv : ReflTransGen net.Link x v := .single (hsymm v x hx)
    have hne : v ≠ x := by
      rintro rfl
      exact hirrefl v hx
    exact h x x y v .refl (hxv.tail hy) hne (hsymm v x hx) (hsymm v y hy)
  · intro h origin u u' x _ _ _ hlink hlink'
    exact h x u u' (hsymm u x hlink) (hsymm u' x hlink')

/-- Three nodes in a row. -/
def rowOfThree : Network (Fin 3) where
  neighbours := fun v => if v = 1 then [0, 2] else [1]
  nodup := by decide

/-- The first node emits a beacon; the middle one sends it on, hears it back from the last one, and
sends it on again. -/
theorem rowOfThree_twice : ¬ ∀ events, AtMostOnce (run rowOfThree events) := by
  intro h
  have hone := (h [.emitBeacon 0 30 "", .deliver 0 30, .deliver 1 30, .deliver 1 30]).beacon 1 0 30
  exact absurd hone (by decide +kernel)

end Vantablack.Abos
